import ScriptCore.Proofs.Sharing.Veil

/-!
# Closed worlds and blind steps

A world is closed if the values that it names, the capabilities of its types and what its
heap records in view mention only what is in view.  A step is blind to what is concealed
if it makes of the veiled world what it makes of the world, under the veil, and if what
it gives is in view again.
-/

namespace ScriptCore

/-- The payload of the error is in view; an error leads to nothing else. -/
abbrev Error.InView (concealed : Identity → Bool) (heap : Heap) (error : Error) : Prop :=
  error.payload.InView concealed heap

theorem Error.inView_ofCause {concealed : Identity → Bool} {heap : Heap} (cause : Cause) :
    (Error.ofCause cause).InView concealed heap :=
  inView_str _

/-! ## Closed worlds -/

/-- All that can be found in the world without being given a value is in view. -/
structure World.Closed (concealed : Identity → Bool) (world : World) : Prop where
  heap : world.heap.Closed concealed
  capability : ∀ {type name value}, world.types.ownCapability type name = some value →
    value.InView concealed world.heap
  globals : world.globals.Every (Value.InView concealed world.heap)
  builtins : world.builtins.Every (Value.InView concealed world.heap)

/-- The world with what its heap records about concealed identities taken away. -/
def World.veil (concealed : Identity → Bool) (world : World) : World :=
  { world with heap := world.heap.veil concealed }

/-- What a step that gives a value makes of a world: the world is closed, the value in view. -/
structure World.Yields (concealed : Identity → Bool) (before : World) (made : Value × World) :
    Prop where
  world : made.2.Closed concealed
  keeps : before.heap.Keeps made.2.heap
  value : made.1.InView concealed made.2.heap

namespace World.Closed

variable {concealed : Identity → Bool} {world : World} (closed : world.Closed concealed)
  {value : Value}

include closed

theorem withHeap {heap : Heap} (keeps : world.heap.Keeps heap) (held : heap.Closed concealed) :
    { world with heap : World }.Closed concealed where
  heap := held
  capability defined := (closed.capability defined).mono keeps
  globals := closed.globals.mono fun _ seen => seen.mono keeps
  builtins := closed.builtins.mono fun _ seen => seen.mono keeps

theorem withGlobals {globals : GlobalScope}
    (held : globals.Every (Value.InView concealed world.heap)) :
    { world with globals : World }.Closed concealed :=
  ⟨closed.heap, closed.capability, held, closed.builtins⟩

theorem withBuiltins {builtins : Table Name Value}
    (held : builtins.Every (Value.InView concealed world.heap)) :
    { world with builtins : World }.Closed concealed :=
  ⟨closed.heap, closed.capability, closed.globals, held⟩

theorem addBody (body : Body) : (world.addBody body).2.Closed concealed :=
  ⟨closed.heap, closed.capability, closed.globals, closed.builtins⟩

theorem withTypes {types : Registry}
    (held : ∀ {type name value}, types.ownCapability type name = some value →
      value.InView concealed world.heap) : { world with types : World }.Closed concealed :=
  ⟨closed.heap, held, closed.globals, closed.builtins⟩

theorem resolve {type : TypeId} {name : Name} (found : world.types.resolve type name = some value) :
    value.InView concealed world.heap := by
  obtain ⟨owner, _, defined⟩ := List.exists_of_findSome?_eq_some found
  exact closed.capability defined

theorem yields (held : value.InView concealed world.heap) :
    world.Yields concealed (value, world) :=
  ⟨closed, .refl _, held⟩

/-! ## Changes of types -/

theorem setCapability (type : TypeId) (name : Name) (held : value.InView concealed world.heap) :
    { world with types := world.types.setCapability type name value : World }.Closed concealed := by
  refine closed.withTypes fun defined => ?_
  rw [Registry.ownCapability_setCapability] at defined
  split at defined
  · cases defined
    exact held
  · exact closed.capability defined

theorem eraseCapability (type : TypeId) (name : Name) :
    { world with types := world.types.eraseCapability type name : World }.Closed concealed := by
  refine closed.withTypes fun {other asked found} defined => ?_
  rw [Registry.ownCapability, Registry.eraseCapability, Registry.get?_modify] at defined
  split at defined
  · cases known : world.types.get? other with
    | none =>
        rw [known] at defined
        cases defined
    | some info =>
        rw [known, Option.map_some, Option.bind_some, Table.get?_erase] at defined
        split at defined
        · cases defined
        · have before : world.types.ownCapability other asked = some found := by
            rw [Registry.ownCapability, known, Option.bind_some, defined]
          exact closed.capability before
  · exact closed.capability defined

theorem setDoc (type : TypeId) (doc : String) :
    { world with types := world.types.setDoc type doc : World }.Closed concealed := by
  refine closed.withTypes fun defined => ?_
  rw [Registry.ownCapability, Registry.setDoc, Registry.bind_get?_modify] at defined
  · exact closed.capability defined
  · exact fun _ => rfl

theorem register (name : Name) (parent : TypeId) :
    { world with types := (world.types.register name parent).2 : World }.Closed concealed := by
  refine closed.withTypes fun defined => ?_
  rw [Registry.ownCapability_register] at defined
  exact closed.capability defined

theorem addMember (type : TypeId) (name : Name) (held : value.InView concealed world.heap) :
    (world.addMember type name value).Closed concealed := by
  unfold World.addMember
  split
  · exact closed.setDoc type _
  · exact closed.setCapability type name held

end World.Closed

section Members

variable {concealed : Identity → Bool} {world : World} {members : List (Name × Value)}

theorem World.heap_addMember (type : TypeId) (name : Name) (value : Value) :
    (world.addMember type name value).heap = world.heap := by
  unfold addMember
  split <;> rfl

theorem World.addMember_veil (type : TypeId) (name : Name) (value : Value) :
    (world.veil concealed).addMember type name value =
      (world.addMember type name value).veil concealed := by
  unfold addMember
  split <;> rfl

theorem World.Closed.addMembers (closed : world.Closed concealed) (type : TypeId)
    (held : ∀ member ∈ members, member.2.InView concealed world.heap) :
    world.Yields concealed (.type type, members.foldl (fun current member =>
      current.addMember type member.1 member.2) world) := by
  induction members generalizing world with
  | nil => exact closed.yields (inView_type type)
  | cons member rest ih =>
      rw [List.forall_mem_cons] at held
      have first := closed.addMember type member.1 held.1
      have same : (world.addMember type member.1 member.2).heap = world.heap :=
        World.heap_addMember type member.1 member.2
      have others := ih first (same ▸ held.2)
      exact ⟨others.world, same ▸ others.keeps, inView_type type⟩

theorem World.addMembers_veil (concealed : Identity → Bool) (world : World) (type : TypeId)
    (members : List (Name × Value)) :
    members.foldl (fun current member => current.addMember type member.1 member.2)
      (world.veil concealed) =
      (members.foldl (fun current member => current.addMember type member.1 member.2)
        world).veil concealed := by
  induction members generalizing world with
  | nil => rfl
  | cons member rest ih => rw [List.foldl_cons, List.foldl_cons, World.addMember_veil, ih]

end Members

/-! ## Blind steps -/

/--
What is concealed makes no difference to the step: under the veil it gives the same, which
has the property, or fails with the same error, which is in view.
-/
structure World.Blind {α : Type} (concealed : Identity → Bool) (world : World) (veil : α → α)
    (holds : α → Prop) (step : World → Except Error α) : Prop where
  same : step (world.veil concealed) = (step world).map veil
  value : ∀ a, step world = .ok a → holds a
  error : ∀ error, step world = .error error → error.InView concealed world.heap

/-- A step that gives a value and a world. -/
abbrev World.BlindStep (concealed : Identity → Bool) (world : World)
    (step : World → Except Error (Value × World)) : Prop :=
  world.Blind concealed (Prod.map id (World.veil concealed)) (world.Yields concealed) step

namespace World.Blind

variable {α β : Type} {concealed : Identity → Bool} {world : World} {veil : α → α}
  {between : β → β} {holds : α → Prop} {middle : β → Prop}

theorem give {make : World → α} (same : make (world.veil concealed) = veil (make world))
    (held : holds (make world)) :
    world.Blind concealed veil holds fun world => .ok (make world) where
  same := congrArg Except.ok same
  value := by
    rintro _ ⟨⟩
    exact held
  error := nofun

theorem refuse {error : World → Error} (same : error (world.veil concealed) = error world)
    (held : (error world).InView concealed world.heap) :
    world.Blind concealed veil holds fun world => .error (error world) where
  same := congrArg Except.error same
  value := nofun
  error := by
    rintro _ ⟨⟩
    exact held

/-- Whatever goes wrong, the error that the cause calls for quotes nothing. -/
theorem refuses {cause : World → Cause} (same : cause (world.veil concealed) = cause world) :
    world.Blind concealed veil holds fun world => .error (.ofCause (cause world)) :=
  refuse (congrArg Error.ofCause same) (Error.inView_ofCause _)

/-- A step that does the same in the world and under the veil is as blind. -/
theorem congr {step other : World → Except Error α} (blind : world.Blind concealed veil holds other)
    (veiled : step (world.veil concealed) = other (world.veil concealed))
    (same : step world = other world) : world.Blind concealed veil holds step where
  same := by rw [veiled, blind.same, same]
  value a given := blind.value a (same ▸ given)
  error error refused := blind.error error (same ▸ refused)

theorem bind {first : World → Except Error β} {next : World → β → Except Error α}
    (blind : world.Blind concealed id middle first)
    (further : ∀ b, middle b → world.Blind concealed veil holds fun world => next world b) :
    world.Blind concealed veil holds fun world => first world >>= next world := by
  have veiled := blind.same
  cases found : first world with
  | ok b =>
      rw [found] at veiled
      exact (further b (blind.value b found)).congr (by rw [veiled]; rfl) (by rw [found]; rfl)
  | error error =>
      rw [found] at veiled
      have failed : world.Blind concealed veil holds fun _ => .error error :=
        .refuse rfl (blind.error error found)
      exact failed.congr (by rw [veiled]; rfl) (by rw [found]; rfl)

theorem map {first : World → Except Error β} {f : β → α}
    (blind : world.Blind concealed between middle first)
    (same : ∀ b, f (between b) = veil (f b)) (held : ∀ b, middle b → holds (f b)) :
    world.Blind concealed veil holds fun world => (first world).map f where
  same := by
    rw [blind.same]
    cases first world with
    | ok b => exact congrArg Except.ok (same b)
    | error error => rfl
  value a given := by
    cases found : first world with
    | ok b =>
        rw [found] at given
        cases given
        exact held b (blind.value b found)
    | error error =>
        rw [found] at given
        cases given
  error error refused := by
    cases found : first world with
    | ok b =>
        rw [found] at refused
        cases refused
    | error other =>
        rw [found] at refused
        cases refused
        exact blind.error _ found

theorem bindPure {first : World → Except Error β} {f : β → α}
    (blind : world.Blind concealed between middle first)
    (same : ∀ b, f (between b) = veil (f b)) (held : ∀ b, middle b → holds (f b)) :
    world.Blind concealed veil holds fun world => first world >>= fun b => pure (f b) := by
  have mapped (world : World) : (first world >>= fun b => pure (f b)) = (first world).map f := by
    cases first world <;> rfl
  exact (blind.map same held).congr (mapped _) (mapped _)

theorem ite {condition : World → Prop} [∀ world, Decidable (condition world)]
    {yes no : World → Except Error α} (same : condition (world.veil concealed) ↔ condition world)
    (whenTrue : condition world → world.Blind concealed veil holds yes)
    (whenFalse : ¬condition world → world.Blind concealed veil holds no) :
    world.Blind concealed veil holds fun world =>
      if condition world then yes world else no world := by
  by_cases so : condition world
  · exact (whenTrue so).congr (if_pos (same.mpr so)) (if_pos so)
  · exact (whenFalse so).congr (if_neg (mt same.mp so)) (if_neg so)

/-- A look that finds the same under the veil. -/
theorem look {look : World → Except Error α} (same : look (world.veil concealed) = look world)
    (value : ∀ a, look world = .ok a → holds a)
    (error : ∀ error, look world = .error error → error.InView concealed world.heap) :
    world.Blind concealed id holds look where
  same := by
    rw [same]
    cases look world <;> rfl
  value := value
  error := error

end World.Blind

namespace World.Closed

variable {concealed : Identity → Bool} {world : World} (closed : world.Closed concealed)

include closed

/-- Give a value and leave the world as it is. -/
theorem reply {value : World → Value} (same : value (world.veil concealed) = value world)
    (held : (value world).InView concealed world.heap) :
    world.BlindStep concealed fun world => .ok (value world, world) :=
  .give (Prod.ext same rfl) (closed.yields held)

/-- Look for a value and leave the world as it is. -/
theorem replyMap {look : World → Except Error Value}
    (blind : world.Blind concealed id (Value.InView concealed world.heap) look) :
    world.BlindStep concealed fun world => (look world).map (·, world) := by
  have mapped (world : World) :
      (look world).map (·, world) = look world >>= fun value => .ok (value, world) := by
    cases look world <;> rfl
  have bound : world.BlindStep concealed fun world =>
      look world >>= fun value => .ok (value, world) :=
    blind.bind fun _ found => closed.reply rfl found
  exact bound.congr (mapped _) (mapped _)

/-! ## New values -/

theorem newObject (type : TypeId) {payload : Payload}
    (held : payload.InView concealed world.heap) :
    world.BlindStep concealed fun world =>
      .ok (world.allocate (world.heap.newObject type payload)) := by
  have keeps := Heap.Keeps.newObject world.heap type payload
  refine .give ?_ ⟨closed.withHeap keeps (closed.heap.newObject type held), keeps, ?_⟩
  · exact congrArg (World.allocate (world.veil concealed))
      (Heap.veil_newObject closed.heap type payload)
  · exact inView_object.mpr closed.heap.fresh_inView

theorem newError {error : World → Error} (same : error (world.veil concealed) = error world)
    (held : (error world).InView concealed world.heap) :
    world.BlindStep concealed fun world =>
      .ok (world.allocate (world.heap.newError (error world))) := by
  have keeps := Heap.Keeps.fresh world.heap
  refine .give ?_ ⟨closed.withHeap keeps closed.heap.fresh, keeps, ?_⟩
  · rw [same]
    rfl
  · exact inView_toValue.mpr (held.mono keeps)

theorem defineNative (name : Name) (arity : Option Nat) (doc : Option String)
    (builtin : Builtin) : world.BlindStep concealed fun world =>
      .ok (world.defineNative name arity doc builtin) :=
  .give rfl ⟨closed.addBody _, .refl _, inView_native _⟩

theorem defineClass (name : Name) (parent : Option TypeId) {members : List (Name × Value)}
    (held : ∀ member ∈ members, member.2.InView concealed world.heap) :
    world.BlindStep concealed fun world =>
      .ok (MakeOp.classValue (world.defineClass name parent members)) := by
  have registered := closed.register name (parent.getD .object)
  have added := registered.addMembers (world.types.register name (parent.getD .object)).1 held
  have veiled := World.addMembers_veil concealed
    { world with types := (world.types.register name (parent.getD .object)).2 }
    (world.types.register name (parent.getD .object)).1 members
  exact .give (Prod.ext rfl veiled) ⟨added.world, added.keeps, added.value⟩

end World.Closed

/-! ## The fresh world -/

/-- Nothing is concealed. -/
def Identity.shown : Identity → Bool := fun _ => false

namespace World

variable {concealed : Identity → Bool} {world : World}

theorem closed_bare : bare.Closed Identity.shown where
  heap := ⟨nofun, nofun, fun _ _ => ⟨rfl, rfl⟩, fun _ _ => Payload.inView_plain,
    fun _ _ => Table.every_empty, nofun⟩
  capability defined := by
    rw [show bare.types = .builtin from rfl, Registry.ownCapability_builtin] at defined
    cases defined
  globals := Table.every_empty
  builtins := by
    refine Table.every_empty.setAll fun pair member => ?_
    obtain ⟨entry, _, rfl⟩ := List.mem_map.mp member
    exact inView_type entry.1

theorem Closed.addBuiltin (closed : world.Closed concealed) (entry : Builtin.Entry) :
    (world.addBuiltin entry).Closed concealed := by
  obtain ⟨owner, name, arity, doc, builtin⟩ := entry
  have defined := closed.addBody (.native builtin)
  cases owner with
  | some owner => exact defined.setCapability owner name (inView_native _)
  | none => exact defined.withBuiltins (defined.builtins.set name (inView_native _))

theorem closed_fresh : fresh.Closed Identity.shown := by
  have added (entries : List Builtin.Entry) (start : World)
      (closed : start.Closed Identity.shown) :
      (entries.foldl World.addBuiltin start).Closed Identity.shown := by
    induction entries generalizing start with
    | nil => exact closed
    | cons entry rest ih => exact ih _ (closed.addBuiltin entry)
  exact added _ _ closed_bare

end World

end ScriptCore
