import ScriptCore.Builtin
import ScriptCore.Proofs.Attributes.Assignment
import ScriptCore.Proofs.Registry.Identity
import ScriptCore.Proofs.Text.Ending

/-!
# Names in a rendering

A value can be written with the names that a world has registered, or with those of the
built-in types alone.  Types that are built in keep their names whatever is defined, and
types that nobody registered have a name in neither way; so the two texts differ only
where a class of the user is written out.
-/

namespace ScriptCore

/-! ## Worlds that are updated -/

namespace World

/-- A definition, a registration, an update of an attribute, or something that is no matter
of types. -/
inductive Updates (world : World) : World → Prop where
  | request (request : TypeRequest) : Updates world (world.answer request).2
  | setAttribute {target value : Value} {name : Name} {after : World}
      (accepted : world.setAttribute target name value = .ok after) : Updates world after
  | deleteAttribute {target : Value} {name : Name} {after : World}
      (accepted : world.deleteAttribute target name = .ok after) : Updates world after
  | function {name : Name} {parameters : List Parameter} {doc : Option String} {body : Expr}
      {made : Value × World}
      (accepted : world.defineFunction name parameters doc body = .ok made) :
      Updates world made.2
  | native (name : Name) (arity : Option Nat) (doc : Option String) (builtin : Builtin) :
      Updates world (world.defineNative name arity doc builtin).2
  /-- Such as binding a name, or changing what is in the heap. -/
  | aside {after : World} (same : after.types = world.types) : Updates world after

/-- The worlds that a fresh one may have become. -/
def Reached : World → Prop := Relation.ReflTransGen Updates .fresh

variable {world after : World} {target value : Value} {name : Name}

theorem row_setAttribute (accepted : world.setAttribute target name value = .ok after) :
    after.types.row = world.types.row := by
  cases assigns_of_setAttribute accepted with
  | object | function => rfl
  | doc type => exact (Registry.decorates_setDoc world.types type _).row
  | capability type => exact (Registry.decorates_setCapability world.types type name value).row

theorem row_deleteAttribute (accepted : world.deleteAttribute target name = .ok after) :
    after.types.row = world.types.row := by
  unfold deleteAttribute at accepted
  split at accepted
  · split at accepted
    · cases accepted
      rfl
    · cases accepted
  · split at accepted
    · cases accepted
      rfl
    · cases accepted
  · split at accepted
    · cases accepted
      exact (Registry.decorates_eraseCapability world.types _ name).row
    · cases accepted
  · cases accepted

theorem types_defineFunction {parameters : List Parameter} {doc : Option String} {body : Expr}
    {made : Value × World}
    (accepted : world.defineFunction name parameters doc body = .ok made) :
    made.2.types = world.types := by
  unfold defineFunction at accepted
  split at accepted
  · cases accepted
  · cases accepted
    rfl

/-- No update takes a type away or gives it another name. -/
theorem Updates.row_prefix (updates : world.Updates after) :
    world.types.row <+: after.types.row := by
  cases updates with
  | request request =>
      rw [row_answer]
      exact List.prefix_append _ _
  | setAttribute accepted => rw [row_setAttribute accepted]
  | deleteAttribute accepted => rw [row_deleteAttribute accepted]
  | function accepted => rw [types_defineFunction accepted]
  | native => exact List.prefix_rfl
  | aside same => rw [same]

theorem row_fresh : World.fresh.types.row = TypeId.builtins.map (·.2) := by
  rfl

/-- The types that a fresh world has stand in front of all others. -/
theorem Reached.exists_row (reached : world.Reached) :
    ∃ added, world.types.row = TypeId.builtins.map (·.2) ++ added := by
  have early : World.fresh.types.row <+: world.types.row := by
    induction reached with
    | refl => exact List.prefix_rfl
    | tail _ updates ih => exact ih.trans updates.row_prefix
  obtain ⟨added, same⟩ := early
  exact ⟨added, by rw [← same, row_fresh]⟩

/-- Only a registered type that is not built in has another name than it always had. -/
theorem Reached.names_eq (reached : world.Reached) {type : TypeId}
    (noClass : world.types.contains type = true → type.isBuiltin = true) :
    world.names type = type.builtinName := by
  obtain ⟨added, same⟩ := reached.exists_row
  by_cases builtin : type.isBuiltin = true
  · exact (keepsTypes_of_row same).builtinName type builtin
  · have unknown : world.types.contains type = false :=
      Bool.eq_false_of_not_eq_true (builtin ∘ noClass)
    have outside : TypeId.builtins.length ≤ type.index :=
      Nat.le_of_not_lt fun inside => builtin (decide_eq_true inside)
    rw [names, Registry.nameOf, Registry.get?_eq_none_iff.mpr unknown, TypeId.builtinName,
      List.getElem?_eq_none outside]
    rfl

end World

/-! ## What a rendering names -/

namespace Rendering

/-- Writing the value itself, without what it holds, takes the name of this type. -/
inductive Names : Value → TypeId → Prop where
  | type (type : TypeId) : Names (.type type) type
  | plain (id : Identity) (type : TypeId) : Names (.object id type) type

/-- The value is written somewhere in the rendering of another one, and holds nothing itself. -/
def Occurs (heap : Heap) (v part : Value) : Prop :=
  ∃ (drawing : Drawing) (path : List Identity),
    drawing.Drawn heap [] ∧ drawing.shown = v ∧ drawing.Has path (.atom part)

variable {names others : TypeNames} {heap : Heap} {path : List Identity} {drawing : Drawing}

theorem typeText_congr {type : TypeId} (same : names type = others type) :
    typeText names type = typeText others type := by
  unfold typeText
  rw [same]

theorem instanceText_congr {type : TypeId} (same : names type = others type) :
    instanceText names type = instanceText others type := by
  unfold instanceText
  rw [same]

theorem atomText_congr {value : Value}
    (same : ∀ type, Names value type → names type = others type) :
    atomText names value = atomText others value := by
  cases value with
  | type type => exact congrArg String.toList (typeText_congr (same type (.type type)))
  | object id type => exact congrArg String.toList (instanceText_congr (same type (.plain id type)))
  | bool b => cases b <;> rfl
  | _ => rfl

/-- Names that agree on all types that are named in a drawing give the same text. -/
theorem Drawing.Drawn.pieces_congr (drawn : drawing.Drawn heap path)
    (same : ∀ inner part type, drawing.Has inner (.atom part) → Names part type →
      names type = others type) : drawing.pieces names = drawing.pieces others := by
  induction drawn with
  | atom =>
      rw [Drawing.pieces, Drawing.pieces, atomText_congr fun type => same [] _ type (.here _)]
  | tuple _ ih =>
      have each := List.map_congr_left fun item member =>
        ih item member fun inner part type has => same inner part type (.tuple member has)
      rw [pieces_tuple, pieces_tuple, each]
  | container type holds new _ ih =>
      have each := List.map_congr_left fun part inParts =>
        congrArg (separated [':', ' ']) (List.map_congr_left fun item member =>
          ih part inParts item member fun inner atom type has =>
            same _ atom type (.container inParts member has))
      rw [pieces_container, pieces_container]
      exact congrArg (fun parts => _ :: (separated [',', ' '] parts ++ _)) each
  | cut => rw [Drawing.pieces, Drawing.pieces]

/-- The whole text of a value depends on the names that occur in it alone. -/
theorem write_congr {v : Value}
    (same : ∀ part type, Occurs heap v part → Names part type → names type = others type) :
    write names heap v = write others heap v := by
  obtain ⟨drawing, drawn, rfl⟩ := Drawing.exists_drawn heap [] v
  rw [drawn.write_eq, drawn.write_eq, Drawing.text, Drawing.text,
    drawn.pieces_congr fun inner part type has => same part type ⟨drawing, inner, drawn, rfl, has⟩]

/-- What passes from tuples and containers to what they hold is true of all that is written. -/
theorem Occurs.of_closed {holds : Value → Prop}
    (tuple : ∀ items, holds (.tuple items) → ∀ item ∈ items, holds item)
    (container : ∀ id type contents, holds (.object id type) → contents? heap id = some contents →
      ∀ part ∈ contents.parts, ∀ item ∈ part, holds item)
    {v part : Value} (held : holds v) (occurs : Occurs heap v part) : holds part := by
  obtain ⟨drawing, path, drawn, rfl, place⟩ := occurs
  have each {inner outer : List Identity} {drawing node : Drawing} (place : drawing.Has inner node)
      (drawn : drawing.Drawn heap outer) (held : holds drawing.shown) : holds node.shown := by
    induction place generalizing outer with
    | here => exact held
    | tuple member _ ih =>
        cases drawn with
        | tuple drawn =>
            rw [Drawing.shown_tuple] at held
            exact ih (drawn _ member) (tuple _ held _ (List.mem_map_of_mem member))
    | container inParts member _ ih =>
        cases drawn with
        | container type contents _ drawn =>
            exact ih (drawn _ inParts _ member) (container _ _ _ held contents _
              (List.mem_map_of_mem inParts) _ (List.mem_map_of_mem member))
  exact each place drawn held

end Rendering

/-- No type that is registered and not built in is named in the rendering of the value. -/
def World.NamesNoClass (world : World) (heap : Heap) (v : Value) : Prop :=
  ∀ part type, Rendering.Occurs heap v part → Rendering.Names part type →
    world.types.contains type = true → type.isBuiltin = true

/--
With the names that it has registered, a world that was updated in any way prints a value
as the names of the built-in types do, unless a class of the user is named in it: as a type
or as that of a plain instance.  This is so in its own heap and in every other.
-/
theorem names_agree_without_classes {world : World} (reached : world.Reached) :
    (∀ heap v, world.NamesNoClass heap v →
      v.repr world.names heap = v.repr TypeId.builtinName heap ∧
        v.display world.names heap = v.display TypeId.builtinName heap) ∧
    ∀ v, world.NamesNoClass world.heap v →
      world.repr v = v.repr TypeId.builtinName world.heap ∧
        world.display v = v.display TypeId.builtinName world.heap := by
  have agree (heap : Heap) (v : Value) (noClass : world.NamesNoClass heap v) :
      v.repr world.names heap = v.repr TypeId.builtinName heap ∧
        v.display world.names heap = v.display TypeId.builtinName heap := by
    have written : Rendering.write world.names heap v =
        Rendering.write TypeId.builtinName heap v :=
      Rendering.write_congr fun part type occurs named =>
        reached.names_eq (noClass part type occurs named)
    have repr : v.repr world.names heap = v.repr TypeId.builtinName heap := by
      rw [Value.repr, written, Value.repr]
    refine ⟨repr, ?_⟩
    rw [Rendering.display_eq, Rendering.display_eq, repr]
  exact ⟨agree, agree world.heap⟩

/--
A class, a registration that asks for a built-in type again, and a list that holds itself, a
type that is built in, and two things of a type that is not registered.
-/
def withClass : World :=
  { (World.fresh.answerAll [.register "KeyError" .object, .defineClass "Point" none []]).2 with
    heap :=
      { next := 2
        payloads := (∅ : Table Identity Payload).set ⟨0⟩ (.list
          [.object ⟨0⟩ .list, .type .keyError, .object ⟨1⟩ ⟨99⟩, .tuple [.type ⟨99⟩]]) } }

/-- What the list comes to. -/
inductive WithClass : Value → Prop where
  | list : WithClass (.object ⟨0⟩ .list)
  | keyError : WithClass (.type .keyError)
  | plain : WithClass (.object ⟨1⟩ ⟨99⟩)
  | unknown : WithClass (.type ⟨99⟩)
  | tuple : WithClass (.tuple [.type ⟨99⟩])

theorem names_agree_without_classes_list :
    withClass.Reached ∧ withClass.repr (.type ⟨25⟩) = "<class 'Point'>" ∧
      withClass.repr (.object ⟨0⟩ .list) =
        (Value.object ⟨0⟩ .list).repr TypeId.builtinName withClass.heap := by
  have reached : withClass.Reached := by
    refine .tail (.tail (.tail .refl (.request (.register "KeyError" .object)))
      (.request (.defineClass "Point" none []))) (.aside rfl)
  have noClass : withClass.NamesNoClass withClass.heap (.object ⟨0⟩ .list) := by
    intro part type occurs named known
    have tuple (items : List Value) (held : WithClass (.tuple items)) :
        ∀ item ∈ items, WithClass item := by
      cases held
      exact List.forall_mem_singleton.mpr .unknown
    have container (id : Identity) (type : TypeId) (contents : Rendering.Contents)
        (held : WithClass (.object id type))
        (holds : Rendering.contents? withClass.heap id = some contents) :
        ∀ part ∈ contents.parts, ∀ item ∈ part, WithClass item := by
      cases held with
      | list =>
          cases holds
          simp [WithClass.list, WithClass.keyError, WithClass.plain, WithClass.tuple]
      | plain => cases holds
    cases occurs.of_closed tuple container .list with
    | list | keyError =>
        cases named
        rfl
    | plain | unknown =>
        cases named
        cases known
    | tuple => cases named
  exact ⟨reached, by rfl, ((names_agree_without_classes reached).2 _ noClass).1⟩

end ScriptCore
