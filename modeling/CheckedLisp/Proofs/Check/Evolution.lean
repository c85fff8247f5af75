import CheckedLisp.Check.Class
import CheckedLisp.Proofs.Scope.Confinement
import CheckedLisp.Proofs.Ty.Normal

/-! While names are defined in one frame, every older frame keeps its place and its names. A
function may gain overloads in front, in that frame alone; the type of anything else may be widened
wherever it stands. Each operation on frames is shown to change no more than this, and to keep all
types in normal form. -/
namespace CheckedLisp

/-- What may become of the type of a name. New overloads come only to the frame that
definitions go to, which is what `own` says. -/
structure Ty.Evolved (own : Prop) (ty ty' : Ty) : Prop where
  overloaded : ∀ newest older, ty = .callable newest older →
    ∃ newest' older', ty' = .callable newest' older' ∧ newest :: older <:+ newest' :: older'
  foreign : ty.isCallable = true → ¬ own → ty' = ty
  data : ty.isCallable = false → ty'.isCallable = false
  widened : ty.isCallable = false → ty.Below ty'

namespace Ty.Evolved

variable {own own' : Prop} {ty ty' ty'' : Ty}

theorem refl (own : Prop) (ty : Ty) : ty.Evolved own ty where
  overloaded newest older same := ⟨newest, older, same, List.suffix_rfl⟩
  foreign _ _ := rfl
  data plain := plain
  widened _ := Below.refl ty

theorem mono (weaker : own → own') (evolved : ty.Evolved own ty') : ty.Evolved own' ty' where
  overloaded := evolved.overloaded
  foreign callable elsewhere := evolved.foreign callable fun here => elsewhere (weaker here)
  data := evolved.data
  widened := evolved.widened

theorem trans (first : ty.Evolved own ty') (second : ty'.Evolved own ty'') : ty.Evolved own ty'' where
  overloaded newest older same := by
    obtain ⟨newest', older', same', front⟩ := first.overloaded newest older same
    obtain ⟨newest'', older'', same'', front'⟩ := second.overloaded newest' older' same'
    exact ⟨newest'', older'', same'', front.trans front'⟩
  foreign callable elsewhere := by
    have same := first.foreign callable elsewhere
    rw [second.foreign (same ▸ callable) elsewhere, same]
  data plain := second.data (first.data plain)
  widened plain := (first.widened plain).trans (second.widened (first.data plain))

/-- Signatures that are put in front. -/
theorem overload (here : own) (newest newer : Signature Ty) (older others : List (Signature Ty)) :
    (Ty.callable newest older).Evolved own (.callable newer (others ++ newest :: older)) where
  overloaded := by
    intro newest' older' same
    cases same
    exact ⟨newer, others ++ newest :: older, rfl, List.suffix_append (newer :: others) _⟩
  foreign _ elsewhere := absurd here elsewhere
  data plain := by cases plain
  widened plain := by cases plain

/-- A type that is no function may be joined with any other. -/
theorem join (plain : ty.isCallable = false) (normal : ty.Declared) (normal' : ty'.Declared) :
    ty.Evolved own (Ty.join [ty, ty']) where
  overloaded := by
    intro newest older same
    rw [same] at plain
    cases plain
  foreign callable := by
    rw [plain] at callable
    cases callable
  data _ := (Ty.below_join normal normal').isCallable normal plain
  widened _ := Ty.below_join normal normal'

end Ty.Evolved

abbrev TypeFrame := Frame Ty (List Ty)

namespace TypeFrame

/-- All types in the frame are in normal form. -/
structure Sound (f : TypeFrame) : Prop where
  types : ∀ binding ∈ f.bindings, binding.2.Declared
  returns : ∀ gathered ∈ f.function, ∀ ty ∈ gathered, ty.Declared

theorem Sound.lookup {f : TypeFrame} (sound : Sound f) {name : String} {ty : Ty}
    (found : f.lookup name = some ty) : ty.Declared := by
  obtain ⟨before, after, split, _⟩ := List.lookup_eq_some_iff.1 found
  exact sound.types (name, ty) (by simp [split])

theorem Sound.bind {f : TypeFrame} (sound : Sound f) (name : String) {ty : Ty} (normal : ty.Declared) :
    Sound (f.bind name ty) :=
  ⟨List.forall_mem_cons.2 ⟨normal, sound.types⟩, sound.returns⟩

theorem Sound.rebind {f : TypeFrame} (sound : Sound f) (name : String) {ty : Ty} (normal : ty.Declared) :
    Sound (f.rebind name ty) := by
  refine ⟨?_, sound.returns⟩
  intro binding inside
  rcases Frame.mem_of_mem_replace inside with old | new
  · exact sound.types binding old
  · rw [new]
    exact normal

/-- What may become of a frame; `new` holds of the names that it may have gained, or that may
have gained overloads. -/
structure Evolved (own : Prop) (new : String → Prop) (f f' : TypeFrame) : Prop where
  parent : f'.parent = f.parent
  function : f'.function.isSome = f.function.isSome
  names : ∃ added, f'.names = added ++ f.names ∧ ∀ name ∈ added, own ∧ new name
  types : ∀ name ty, f.lookup name = some ty → ∃ ty', f'.lookup name = some ty' ∧
    ty.Evolved (own ∧ new name) ty'

namespace Evolved

variable {own own' : Prop} {new new' : String → Prop} {f f' f'' : TypeFrame}

theorem refl (own : Prop) (new : String → Prop) (f : TypeFrame) : Evolved own new f f where
  parent := rfl
  function := rfl
  names := ⟨[], rfl, by simp⟩
  types _ ty found := ⟨ty, found, .refl _ ty⟩

theorem mono (weaker : ∀ name, own → new name → own' ∧ new' name) (evolved : Evolved own new f f') :
    Evolved own' new' f f' where
  parent := evolved.parent
  function := evolved.function
  names := by
    obtain ⟨added, names, each⟩ := evolved.names
    refine ⟨added, names, ?_⟩
    intro name inside
    obtain ⟨here, isNew⟩ := each name inside
    exact weaker name here isNew
  types name ty found := by
    obtain ⟨ty', found', evolvedTy⟩ := evolved.types name ty found
    exact ⟨ty', found', evolvedTy.mono fun ⟨here, isNew⟩ => weaker name here isNew⟩

theorem trans (first : Evolved own new f f') (second : Evolved own new f' f'') :
    Evolved own new f f'' where
  parent := second.parent.trans first.parent
  function := second.function.trans first.function
  names := by
    obtain ⟨added, names, each⟩ := first.names
    obtain ⟨added', names', each'⟩ := second.names
    refine ⟨added' ++ added, ?_, List.forall_mem_append.2 ⟨each', each⟩⟩
    rw [names', names, List.append_assoc]
  types name ty found := by
    obtain ⟨ty', found', evolved⟩ := first.types name ty found
    obtain ⟨ty'', found'', evolved'⟩ := second.types name ty' found'
    exact ⟨ty'', found'', evolved.trans evolved'⟩

theorem bind (here : own) {name : String} (isNew : new name) (free : f.lookup name = none) (ty : Ty) :
    Evolved own new f (f.bind name ty) where
  parent := rfl
  function := rfl
  names := ⟨[name], rfl, by simp [here, isNew]⟩
  types other old found := by
    refine ⟨old, ?_, .refl _ old⟩
    by_cases same : other = name
    · subst same
      rw [free] at found
      cases found
    · have apart : (other == name) = false := beq_eq_false_iff_ne.2 same
      simpa [Frame.lookup, Frame.bind, List.lookup_cons, apart] using found

/-- Changing the type of one name. -/
theorem rebind {name : String} {ty : Ty}
    (evolved : ∀ old, f.lookup name = some old → old.Evolved (own ∧ new name) ty) :
    Evolved own new f (f.rebind name ty) where
  parent := rfl
  function := rfl
  names := ⟨[], Frame.names_rebind f name ty, by simp⟩
  types other old found := by
    simp only [Frame.lookup, Frame.rebind, Frame.lookup_replace] at found ⊢
    by_cases same : other = name
    · subst same
      exact ⟨ty, by simp [found], evolved old found⟩
    · exact ⟨old, by simp [same, found], .refl _ old⟩

/-- Widening a name that was no function, if the frame had it at all. -/
theorem rejoin (evolved : Evolved own new f f') {name : String} {old ty : Ty}
    (plain : ∀ first, f.lookup name = some first → first.isCallable = false)
    (held : f'.lookup name = some old) (normal : old.Declared) (normal' : ty.Declared) :
    Evolved own new f (f'.rebind name (.join [old, ty])) where
  parent := evolved.parent
  function := evolved.function
  names := by
    rw [Frame.names_rebind]
    exact evolved.names
  types other first found := by
    obtain ⟨later, found', evolvedTy⟩ := evolved.types other first found
    simp only [Frame.lookup, Frame.rebind, Frame.lookup_replace] at found' held ⊢
    by_cases same : other = name
    · subst same
      obtain rfl : old = later := Option.some.inj (held.symm.trans found')
      have stillPlain := evolvedTy.data (plain first found)
      exact ⟨.join [old, ty], by simp [held], evolvedTy.trans (.join stillPlain normal normal')⟩
    · exact ⟨later, by simp [same, found'], evolvedTy⟩

/-- What a function gathers is not among its names. -/
theorem gather (function : Option (List Ty)) (same : function.isSome = f.function.isSome) :
    Evolved own new f { f with function } where
  parent := rfl
  function := same
  names := ⟨[], rfl, by simp⟩
  types _ ty found := ⟨ty, found, .refl _ ty⟩

end Evolved

end TypeFrame

namespace TypeHeap

/-- What the frame of `t` itself binds a name to. -/
def bound (h : TypeHeap) (t : Scope) (name : String) : Option Ty := (h.frame? t).bind (·.lookup name)

theorem bound_of_frame? {h : TypeHeap} {t : Scope} {frame : TypeFrame} (found : h.frame? t = some frame)
    (name : String) : h.bound t name = frame.lookup name := by
  rw [bound, found, Option.bind_some]

theorem bindsIn_eq (h : TypeHeap) (t : Scope) (name : String) : h.bindsIn t name = (h.bound t name).isSome := by
  rw [Heap.bindsIn, bound]
  cases h.frame? t <;> rfl

theorem exists_bound {h : TypeHeap} {s t : Scope} {name : String} (binder : h.binder? s name = some t) :
    ∃ ty, h.bound t name = some ty := by
  have isBound : h.bindsIn t name = true := List.find?_some (p := (h.bindsIn · name)) binder
  rw [bindsIn_eq] at isBound
  exact Option.isSome_iff_exists.1 isBound

theorem widen_of_binder {h : TypeHeap} {s t : Scope} {name : String} {old ty : Ty} (binder : h.binder? s name = some t)
    (held : h.bound t name = some old) :
    h.widen s name ty = (true, Heap.modify h t (·.rebind name (.join [old, ty]))) := by
  simp only [TypeHeap.widen, binder, show (h.frame? t).bind (·.lookup name) = some old from held]

/-- Parents are older than their children, and all types are in normal form. -/
structure Sound (h : TypeHeap) : Prop where
  ordered : h.Ordered
  frames : ∀ t frame, h.frame? t = some frame → TypeFrame.Sound frame

section

variable {h : TypeHeap}

/-- A frame that has gathered nothing may be opened anywhere. -/
theorem Sound.add (sound : Sound h) {parent : Scope} (live : parent < h.next) {function : Option (List Ty)}
    (empty : ∀ gathered ∈ function, gathered = []) : Sound (h.add (some parent) function) := by
  refine ⟨sound.ordered.add live function, ?_⟩
  intro t frame found
  rcases Heap.frame?_add_cases found with old | ⟨rfl, rfl⟩
  · exact sound.frames t frame old
  · refine ⟨List.forall_mem_nil _, ?_⟩
    intro gathered held
    rw [empty gathered held]
    exact List.forall_mem_nil _

theorem Sound.child (sound : Sound h) {parent : Scope} (live : parent < h.next) :
    Sound (h.add (some parent) none) := by
  apply sound.add live
  intro gathered held
  cases held

theorem Sound.functionChild (sound : Sound h) {parent : Scope} (live : parent < h.next) :
    Sound (h.add (some parent) (some [])) :=
  sound.add live fun _ held => (Option.some.inj held).symm

theorem Sound.modify (sound : Sound h) (t : Scope) {change : TypeFrame → TypeFrame}
    (same : ∀ frame, (change frame).parent = frame.parent)
    (each : ∀ frame, TypeFrame.Sound frame → TypeFrame.Sound (change frame)) :
    Sound (Heap.modify h t change) := by
  refine ⟨sound.ordered.modify t same, ?_⟩
  intro u frame found
  rw [Heap.frame?_modify] at found
  split at found
  · obtain ⟨old, foundOld, rfl⟩ := Option.map_eq_some_iff.1 found
    exact each old (sound.frames u old foundOld)
  · exact sound.frames u frame found

theorem Sound.bindings (sound : Sound h) {t : Scope} {name : String} {ty : Ty}
    (found : (h.frame? t).bind (·.lookup name) = some ty) : ty.Declared := by
  obtain ⟨frame, foundFrame, bound⟩ := Option.bind_eq_some_iff.1 found
  exact (sound.frames t frame foundFrame).lookup bound

theorem Sound.lookup (sound : Sound h) {s : Scope} {name : String} {ty : Ty}
    (found : h.lookup s name = some ty) : ty.Declared := by
  obtain ⟨t, _, bound⟩ := List.exists_of_findSome?_eq_some found
  exact sound.bindings bound

theorem Sound.returns (sound : Sound h) (s : Scope) : ∀ ty ∈ h.returns s, ty.Declared := by
  intro ty inside
  unfold TypeHeap.returns at inside
  cases owner : (h.frame? s).bind (·.function) with
  | none =>
    rw [owner] at inside
    cases inside
  | some gathered =>
    rw [owner] at inside
    obtain ⟨frame, found, held⟩ := Option.bind_eq_some_iff.1 owner
    exact (sound.frames s frame found).returns gathered held ty inside

/-- A definition binds a free name, puts signatures in front of a function's own, or is
refused. -/
theorem define_cases (h : TypeHeap) (s : Scope) (name : String) (ty : Ty) :
    (h.frame? s).bind (·.lookup name) = none ∧
        h.define s name ty = (true, Heap.modify h s (·.bind name ty)) ∨
      (∃ newest older newer others, (h.frame? s).bind (·.lookup name) = some (.callable newest older) ∧
        ty = .callable newer others ∧ h.define s name ty =
          (true, Heap.modify h s (·.rebind name (.callable newer (others ++ newest :: older))))) ∨
      h.define s name ty = (false, h) := by
  unfold TypeHeap.define
  split
  · next free => exact .inl ⟨free, rfl⟩
  · next newest older newer others held => exact .inr (.inl ⟨newest, older, newer, others, held, rfl, rfl⟩)
  · exact .inr (.inr rfl)

theorem declared_overload {newest newer : Signature Ty} {older others : List (Signature Ty)}
    (old : (Ty.callable newest older).Declared) (new : (Ty.callable newer others).Declared) :
    (Ty.callable newer (others ++ newest :: older)).Declared := by
  cases old with
  | callable ruled params ret =>
    cases new with
    | callable ruled' params' ret' =>
      have both : ∀ s ∈ newer :: (others ++ newest :: older), s ∈ newer :: others ∨ s ∈ newest :: older := by
        intro s inside
        simpa [or_assoc] using inside
      apply Ty.NormalUnder.callable
      · intro s inside
        exact (both s inside).elim (ruled' s) (ruled s)
      · intro s inside
        exact (both s inside).elim (params' s) (params s)
      · intro s inside
        exact (both s inside).elim (ret' s) (ret s)

theorem Sound.define (sound : Sound h) (s : Scope) (name : String) {ty : Ty} (normal : ty.Declared) :
    Sound (h.define s name ty).2 := by
  rcases define_cases h s name ty with ⟨_, bound⟩ | ⟨newest, older, newer, others, held, rfl, bound⟩ | refused
  · rw [bound]
    exact sound.modify s (fun _ => rfl) fun _ old => old.bind name normal
  · rw [bound]
    have together := declared_overload (sound.bindings held) normal
    exact sound.modify s (fun _ => rfl) fun _ old => old.rebind name together
  · rw [refused]
    exact sound

theorem Sound.widen (sound : Sound h) (s : Scope) (name : String) {ty : Ty} (normal : ty.Declared) :
    Sound (h.widen s name ty).2 := by
  unfold TypeHeap.widen
  split
  · exact sound
  · split
    · exact sound
    · next old held =>
      have joined : (Ty.join [old, ty]).Declared := Ty.normal_join (by simp [sound.bindings held, normal])
      exact sound.modify _ (fun _ => rfl) fun _ old => old.rebind name joined

theorem Sound.recordReturn (sound : Sound h) (s : Scope) {ty : Ty} (normal : ty.Declared) :
    Sound (h.recordReturn s ty).2 := by
  unfold TypeHeap.recordReturn
  split
  · exact sound
  · refine sound.modify _ (fun _ => rfl) ?_
    intro frame old
    refine ⟨old.types, ?_⟩
    intro gathered held
    obtain ⟨before, isBefore, rfl⟩ := Option.map_eq_some_iff.1 held
    exact TypeText.forall_append_singleton (old.returns before isBefore) normal

theorem Sound.clearReturns (sound : Sound h) (s : Scope) : Sound (h.clearReturns s) := by
  refine sound.modify s (fun _ => rfl) ?_
  intro frame old
  refine ⟨old.types, ?_⟩
  intro gathered held
  obtain ⟨_, _, rfl⟩ := Option.map_eq_some_iff.1 held
  exact List.forall_mem_nil _

end

/-- What may become of all frames while names are defined in the frame of `s` alone, and
only such that `new` holds of them. -/
structure Evolved (s : Scope) (new : String → Prop) (h h' : TypeHeap) : Prop where
  next : h.next ≤ h'.next
  kept : ∀ t frame, h.frame? t = some frame →
    ∃ frame', h'.frame? t = some frame' ∧ TypeFrame.Evolved (t = s) new frame frame'

section

variable {h h₁ h₂ h₃ : TypeHeap} {s t : Scope} {new new' : String → Prop}

theorem Evolved.refl (s : Scope) (new : String → Prop) (h : TypeHeap) : Evolved s new h h :=
  ⟨Nat.le_refl _, fun _ frame found => ⟨frame, found, .refl _ new frame⟩⟩

/-- What follows may define names in `s` again, or anything in a frame that is new by now. -/
theorem Evolved.trans (first : Evolved s new h₁ h₂) (second : Evolved t new' h₂ h₃)
    (inside : (t = s ∧ ∀ name, new' name → new name) ∨ h₁.next ≤ t) : Evolved s new h₁ h₃ := by
  refine ⟨Nat.le_trans first.next second.next, ?_⟩
  intro u frame found
  obtain ⟨frame', found', evolved⟩ := first.kept u frame found
  obtain ⟨frame'', found'', evolved'⟩ := second.kept u frame' found'
  refine ⟨frame'', found'', evolved.trans (evolved'.mono ?_)⟩
  intro name here isNew
  rcases inside with ⟨same, weaker⟩ | younger
  · exact ⟨here.trans same, weaker name isNew⟩
  · subst here
    exact absurd (Heap.lt_next_of_frame? found) (Nat.not_lt.2 younger)

theorem Evolved.mono (evolved : Evolved s new h₁ h₂) (weaker : ∀ name, new name → new' name) :
    Evolved s new' h₁ h₂ := by
  refine ⟨evolved.next, ?_⟩
  intro u frame found
  obtain ⟨frame', found', evolvedFrame⟩ := evolved.kept u frame found
  exact ⟨frame', found', evolvedFrame.mono fun name here isNew => ⟨here, weaker name isNew⟩⟩

theorem Evolved.keeps (evolved : Evolved s new h₁ h₂) : Heap.Keeps h₁ h₂ := by
  refine ⟨evolved.next, ?_⟩
  intro u frame found
  obtain ⟨frame', found', evolvedFrame⟩ := evolved.kept u frame found
  exact ⟨frame', found', evolvedFrame.parent⟩

/-- A name that comes into sight is one of those that may be new. -/
theorem Evolved.sees (evolved : Evolved s new h₁ h₂) (ordered : h₁.Ordered) (ordered' : h₂.Ordered)
    (live : t < h₁.next) {name : String} (seen : h₂.Sees t name) : h₁.Sees t name ∨ new name := by
  obtain ⟨u, onChain, frame', found', bound⟩ := seen
  rw [evolved.keeps.chain ordered ordered' live] at onChain
  have older := Heap.lt_next_of_mem_chain ordered live onChain
  obtain ⟨frame, found⟩ := Heap.exists_frame? older
  obtain ⟨own, foundOwn, evolvedFrame⟩ := evolved.kept u frame found
  obtain rfl : own = frame' := Option.some.inj (foundOwn.symm.trans found')
  obtain ⟨added, names, each⟩ := evolvedFrame.names
  rw [names] at bound
  rcases List.mem_append.1 bound with isNew | old
  · exact .inr (each name isNew).2
  · exact .inl ⟨u, onChain, frame, found, old⟩

/-- No name goes out of sight. -/
theorem Evolved.stillSees (evolved : Evolved s new h₁ h₂) (ordered : h₁.Ordered) (ordered' : h₂.Ordered)
    (live : t < h₁.next) {name : String} (seen : h₁.Sees t name) : h₂.Sees t name := by
  obtain ⟨u, onChain, frame, found, bound⟩ := seen
  obtain ⟨frame', found', evolvedFrame⟩ := evolved.kept u frame found
  obtain ⟨added, names, _⟩ := evolvedFrame.names
  rw [← evolved.keeps.chain ordered ordered' live] at onChain
  exact ⟨u, onChain, frame', found', by simp [names, bound]⟩

/-- The frame that binds a name now bound it before, unless it did not bind it at all: no
frame in front of it did. -/
theorem Evolved.binder? (evolved : Evolved s new h₁ h₂) (ordered : h₁.Ordered) (ordered' : h₂.Ordered)
    (live : s < h₁.next) {name : String} (binder : h₂.binder? s name = some t)
    (bound : h₁.bindsIn t name = true) : h₁.binder? s name = some t := by
  unfold Heap.binder? at binder ⊢
  rw [evolved.keeps.chain ordered ordered' live, List.find?_eq_some_iff_append] at binder
  rw [List.find?_eq_some_iff_append]
  obtain ⟨_, before, after, split, free⟩ := binder
  refine ⟨bound, before, after, split, ?_⟩
  intro u inside
  cases held : h₁.bindsIn u name with
  | false => rfl
  | true =>
    obtain ⟨frame, found, isBound⟩ := (Heap.bindsIn_iff h₁ u name).1 held
    obtain ⟨frame', found', evolvedFrame⟩ := evolved.kept u frame found
    obtain ⟨added, names, _⟩ := evolvedFrame.names
    have still : h₂.bindsIn u name = true := by
      rw [Heap.bindsIn_iff]
      exact ⟨frame', found', by simp [names, isBound]⟩
    have unbound := free u inside
    rw [still] at unbound
    cases unbound

theorem evolved_add (s : Scope) (new : String → Prop) (h : TypeHeap) (parent : Option Scope)
    (function : Option (List Ty)) : Evolved s new h (h.add parent function) := by
  refine ⟨(Heap.next_add h parent function).symm ▸ Nat.le_succ _, ?_⟩
  intro u frame found
  have kept := Heap.frame?_add_of_lt h parent function (Heap.lt_next_of_frame? found)
  exact ⟨frame, kept.trans found, .refl _ new frame⟩

theorem evolved_modify {change : TypeFrame → TypeFrame}
    (each : ∀ frame, h.frame? t = some frame → TypeFrame.Evolved (t = s) new frame (change frame)) :
    Evolved s new h (Heap.modify h t change) := by
  refine ⟨Nat.le_of_eq (Heap.next_modify h t change).symm, ?_⟩
  intro u frame found
  by_cases here : t = u
  · subst here
    exact ⟨change frame, by simp [Heap.frame?_modify, found], each frame found⟩
  · exact ⟨frame, by simp [Heap.frame?_modify, here, found], .refl _ new frame⟩

theorem evolved_define (h : TypeHeap) (s : Scope) {name : String} (isNew : new name) (ty : Ty) :
    Evolved s new h (h.define s name ty).2 := by
  rcases define_cases h s name ty with ⟨free, bound⟩ | ⟨newest, older, newer, others, held, rfl, bound⟩ | refused
  · rw [bound]
    apply evolved_modify
    intro frame found
    rw [found] at free
    exact .bind rfl isNew free ty
  · rw [bound]
    apply evolved_modify
    intro frame found
    apply TypeFrame.Evolved.rebind
    intro old isOld
    rw [found, Option.bind_some, isOld] at held
    cases held
    exact .overload ⟨rfl, isNew⟩ newest newer older others
  · rw [refused]
    exact .refl s new h

theorem next_le_define (h : TypeHeap) (s : Scope) (name : String) (ty : Ty) : h.next ≤ (h.define s name ty).2.next := by
  have evolved : Evolved s (fun _ => True) h (h.define s name ty).2 := evolved_define h s trivial ty
  exact evolved.next

theorem evolved_recordReturn (h : TypeHeap) (s t : Scope) (new : String → Prop) (ty : Ty) :
    Evolved s new h (h.recordReturn t ty).2 := by
  unfold TypeHeap.recordReturn
  split
  · exact .refl s new h
  · apply evolved_modify
    intro frame _
    exact .gather _ Option.isSome_map

theorem evolved_clearReturns (h : TypeHeap) (s t : Scope) (new : String → Prop) :
    Evolved s new h (h.clearReturns t) := by
  apply evolved_modify
  intro frame _
  exact .gather _ Option.isSome_map

/-- An assignment widens a binding. If that binding is an old one, it must not have been a
function; one that was made since may have been anything. -/
theorem Evolved.widen (evolved : Evolved s new h₁ h₂) (sound : Sound h₂) {name : String} {ty : Ty}
    (normal : ty.Declared)
    (plain : ∀ u frame old, h₂.binder? t name = some u → h₁.frame? u = some frame →
      frame.lookup name = some old → old.isCallable = false) :
    Evolved s new h₁ (h₂.widen t name ty).2 := by
  unfold TypeHeap.widen
  split
  · exact evolved
  · next u binder =>
    split
    · exact evolved
    · next old held =>
      refine ⟨Nat.le_trans evolved.next (Nat.le_of_eq (Heap.next_modify h₂ u _).symm), ?_⟩
      intro v frame found
      obtain ⟨frame', found', evolvedFrame⟩ := evolved.kept v frame found
      by_cases here : u = v
      · subst here
        rw [found', Option.bind_some] at held
        refine ⟨frame'.rebind name (.join [old, ty]), by simp [Heap.frame?_modify, found'], ?_⟩
        exact evolvedFrame.rejoin (plain u frame · binder found) held
          ((sound.frames u frame' found').lookup held) normal
      · exact ⟨frame', by simp [Heap.frame?_modify, here, found'], evolvedFrame⟩

end

end TypeHeap

end CheckedLisp
