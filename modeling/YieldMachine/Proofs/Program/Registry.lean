import Mathlib.Data.List.Induction
import YieldMachine.Program.Registry

/-!
The list of functions and the index of their names agree. A registration changes the two one after the other, and may
be refused before it does (`Registry.enter_cases`). After any registrations, accepted and refused in any order, a name
leads to the one function that has it, functions are numbered as they were accepted, and what a number or a name has led
to it leads to for ever (`registry_consistent`).
-/

namespace YieldMachine

namespace Registry

/-- The answer to a registration, and the registry with which its user goes on. -/
def attempt (r : Registry) (f : Function) : Except RegistryError FunctionId × Registry :=
  match r.register f with
  | .ok (id, r') => (.ok id, r')
  | .error e => (.error e, r)

/-- The answers to registrations one after the other, and the registry after them. -/
def attempts (r : Registry) : List Function → List (Except RegistryError FunctionId) × Registry
  | [] => ([], r)
  | f :: fs =>
    let (a, r₁) := r.attempt f
    let (as, r₂) := r₁.attempts fs
    (a :: as, r₂)

/-- The answers to registrations on an empty registry. -/
def answers (fs : List Function) : List (Except RegistryError FunctionId) := (empty.attempts fs).1

/-- What registrations on an empty registry come to. -/
def after (fs : List Function) : Registry := (empty.attempts fs).2

/-- The functions that were accepted with these answers, under the numbers that they were given. -/
def accepted (fs : List Function) (as : List (Except RegistryError FunctionId)) : List (FunctionId × Function) :=
  (fs.zip as).filterMap fun p => p.2.toOption.map (·, p.1)

/-- A name leads to a number just when this is the number of a function of that name. -/
def Consistent (r : Registry) : Prop :=
  ∀ name id, r.lookup name = some id ↔ ∃ f, r.get? id = some f ∧ f.name = name

/-- What the first registry finds, the second finds too. -/
structure Extends (r r' : Registry) : Prop where
  get : ∀ id f, r.get? id = some f → r'.get? id = some f
  lookup : ∀ name id, r.lookup name = some id → r'.lookup name = some id
  getByName : ∀ name f, r.getByName? name = some f → r'.getByName? name = some f

/-- The second registry has one function more, under the next number. -/
structure Adds (r : Registry) (f : Function) (id : FunctionId) (r' : Registry) : Prop where
  number : id = r.size
  size : r'.size = r.size + 1
  absent : r.lookup f.name = none
  get : ∀ i, r'.get? i = if i = id then some f else r.get? i
  lookup : ∀ name, r'.lookup name = if name = f.name then some id else r.lookup name

variable {r r' r₁ r₂ : Registry} {f : Function} {fs gs : List Function} {id : FunctionId} {name : String}
  {e : RegistryError}

/-! ### One registration -/

theorem mem_byName_iff : name ∈ r.byName ↔ ∃ id, r.lookup name = some id := by
  rw [← Std.TreeMap.contains_iff_mem, Std.TreeMap.contains_eq_isSome_getElem?, Option.isSome_iff_exists]
  rfl

/-- A registration ends at once if the name is there or no number is left, and has changed nothing then. -/
theorem enter_cases (r : Registry) (f : Function) :
    (∃ id, r.lookup f.name = some id ∧ (enter f).run r = (.error (.duplicate f.name), r)) ∨
    (r.lookup f.name = none ∧ capacity ≤ r.size ∧ (enter f).run r = (.error .full, r)) ∨
    (r.lookup f.name = none ∧ r.size < capacity ∧
      (enter f).run r = (.ok r.size, ⟨r.functions.push f, r.byName.insert f.name r.size⟩)) := by
  unfold enter
  cases hname : r.lookup f.name with
  | some id =>
    have hmem : f.name ∈ r.byName := mem_byName_iff.mpr ⟨id, hname⟩
    left
    refine ⟨id, rfl, ?_⟩
    simp [hmem]
    rfl
  | none =>
    have hnew : f.name ∉ r.byName := by simp [mem_byName_iff, hname]
    right
    by_cases hfull : capacity ≤ r.functions.size
    · left
      refine ⟨rfl, hfull, ?_⟩
      simp [hnew, hfull]
      rfl
    · right
      refine ⟨rfl, Nat.not_le.mp hfull, ?_⟩
      simp [hnew, hfull]
      rfl

/-- A registration that is refused has left the registry as it was. -/
theorem enter_of_register_error (h : r.register f = .error e) : (enter f).run r = (.error e, r) := by
  unfold register at h
  rcases r.enter_cases f with ⟨id, -, hr⟩ | ⟨-, -, hr⟩ | ⟨-, -, hr⟩
  · rw [hr] at h ⊢
    cases h
    rfl
  · rw [hr] at h ⊢
    cases h
    rfl
  · rw [hr] at h
    cases h

theorem enter_of_register_ok (h : r.register f = .ok (id, r')) : (enter f).run r = (.ok id, r') := by
  unfold register at h
  split at h
  · next hr =>
    cases h
    exact hr
  · cases h

theorem register_cases (r : Registry) (f : Function) :
    (∃ id, r.lookup f.name = some id ∧ r.register f = .error (.duplicate f.name)) ∨
    (r.lookup f.name = none ∧ capacity ≤ r.size ∧ r.register f = .error .full) ∨
    (r.lookup f.name = none ∧ r.size < capacity ∧
      r.register f = .ok (r.size, ⟨r.functions.push f, r.byName.insert f.name r.size⟩)) := by
  unfold register
  rcases r.enter_cases f with ⟨id, hname, hr⟩ | ⟨hname, hfull, hr⟩ | ⟨hname, hroom, hr⟩
  · exact .inl ⟨id, hname, by rw [hr]⟩
  · exact .inr (.inl ⟨hname, hfull, by rw [hr]⟩)
  · exact .inr (.inr ⟨hname, hroom, by rw [hr]⟩)

theorem adds_register (hname : r.lookup f.name = none) :
    Adds r f r.size ⟨r.functions.push f, r.byName.insert f.name r.size⟩ := by
  refine ⟨rfl, by simp [size], hname, ?_, ?_⟩
  · intro i
    simp only [get?, size, Array.getElem?_push]
    rfl
  · intro name
    simp only [lookup, Std.TreeMap.getElem?_insert, Std.compare_eq_iff_eq, eq_comm (a := f.name)]

theorem adds_of_register (h : r.register f = .ok (id, r')) : Adds r f id r' := by
  rcases r.register_cases f with ⟨_, -, hr⟩ | ⟨-, -, hr⟩ | ⟨hname, -, hr⟩
  · rw [hr] at h
    cases h
  · rw [hr] at h
    cases h
  · rw [hr] at h
    cases h
    exact adds_register hname

/-- A registration is accepted and adds its function, or is refused and changes nothing. -/
theorem attempt_cases (r : Registry) (f : Function) :
    (∃ id, (r.attempt f).1 = .ok id ∧ Adds r f id (r.attempt f).2) ∨
    ∃ e, r.attempt f = (.error e, r) := by
  unfold attempt
  cases hr : r.register f with
  | ok p => exact .inl ⟨p.1, rfl, adds_of_register hr⟩
  | error e => exact .inr ⟨e, rfl⟩

/-- With numbers left, a registration is refused just for its name. -/
theorem refused_iff (hroom : r.size < capacity) :
    ((∃ e, r.register f = .error e) ↔ ∃ id, r.lookup f.name = some id) ∧
      ∀ e, r.register f = .error e → e = .duplicate f.name := by
  rcases r.register_cases f with ⟨id, hname, hr⟩ | ⟨-, hfull, -⟩ | ⟨hname, -, hr⟩
  · simp [hr, hname, eq_comm]
  · omega
  · simp [hr, hname]

theorem get?_of_le {i : Nat} (h : r.size ≤ i) : r.get? i = none := Array.getElem?_eq_none h

/-- The new number has not led to anything. -/
theorem Adds.ne_of_get? (h : Adds r f id r') {i : FunctionId} {g : Function} (hg : r.get? i = some g) : i ≠ id := by
  rintro rfl
  rw [h.number, get?_of_le (Nat.le_refl _)] at hg
  cases hg

theorem Adds.consistent (h : Adds r f id r') (hr : r.Consistent) : r'.Consistent := by
  intro name i
  rw [h.lookup, h.get]
  by_cases hname : name = f.name
  · subst hname
    -- No earlier function has the name.
    have hnone : ¬ ∃ g, r.get? i = some g ∧ g.name = f.name := by
      intro hg
      have hi := (hr f.name i).mpr hg
      rw [h.absent] at hi
      cases hi
    by_cases hi : i = id
    · simp [hi]
    · simp [hi, hnone, Ne.symm hi]
  · by_cases hi : i = id
    · subst hi
      have hbeyond : r.lookup name ≠ some i := by
        intro hold
        obtain ⟨g, hg, -⟩ := (hr name i).mp hold
        exact h.ne_of_get? hg rfl
      simp [hname, hbeyond, Ne.symm hname]
    · simp only [hname, hi, if_false]
      exact hr name i

theorem Extends.refl (r : Registry) : r.Extends r := ⟨fun _ _ h => h, fun _ _ h => h, fun _ _ h => h⟩

theorem Extends.trans (h : r.Extends r₁) (h' : r₁.Extends r₂) : r.Extends r₂ :=
  ⟨fun i f hf => h'.get i f (h.get i f hf), fun name i hi => h'.lookup name i (h.lookup name i hi),
    fun name f hf => h'.getByName name f (h.getByName name f hf)⟩

theorem Adds.extends (h : Adds r f id r') : r.Extends r' := by
  have hget (i : FunctionId) (g : Function) (hg : r.get? i = some g) : r'.get? i = some g := by
    rw [h.get, if_neg (h.ne_of_get? hg), hg]
  have hlookup (name : String) (i : FunctionId) (hi : r.lookup name = some i) : r'.lookup name = some i := by
    have hne : name ≠ f.name := by
      rintro rfl
      rw [h.absent] at hi
      cases hi
    rw [h.lookup, if_neg hne, hi]
  refine ⟨hget, hlookup, ?_⟩
  intro name g hg
  obtain ⟨i, hi, hg⟩ := Option.bind_eq_some_iff.mp hg
  rw [getByName?, hlookup name i hi]
  exact hget i g hg

/-! ### Registrations one after the other -/

theorem attempts_append (r : Registry) (fs gs : List Function) :
    r.attempts (fs ++ gs) = ((r.attempts fs).1 ++ ((r.attempts fs).2.attempts gs).1,
      ((r.attempts fs).2.attempts gs).2) := by
  induction fs generalizing r with
  | nil => rfl
  | cons f fs ih => simp [attempts, ih]

theorem after_append (fs gs : List Function) : after (fs ++ gs) = ((after fs).attempts gs).2 := by
  rw [after, attempts_append]
  rfl

theorem after_concat (fs : List Function) (f : Function) :
    after (fs ++ [f]) = ((after fs).attempt f).2 ∧
      answers (fs ++ [f]) = answers fs ++ [((after fs).attempt f).1] := by
  rw [after, answers, attempts_append]
  exact ⟨rfl, rfl⟩

theorem length_attempts (r : Registry) (fs : List Function) : (r.attempts fs).1.length = fs.length := by
  induction fs generalizing r with
  | nil => rfl
  | cons f fs ih => simp [attempts, ih]

theorem accepted_concat (fs : List Function) (f : Function) :
    accepted (fs ++ [f]) (answers (fs ++ [f])) =
      accepted fs (answers fs) ++ (((after fs).attempt f).1.toOption.map (·, f)).toList := by
  have hlength : fs.length = (answers fs).length := (length_attempts empty fs).symm
  rw [accepted, (after_concat fs f).2, List.zip_append hlength, List.filterMap_append]
  simp only [List.zip_cons_cons, List.zip_nil_right, List.filterMap_cons, List.filterMap_nil, accepted]
  cases ((after fs).attempt f).1.toOption <;> rfl

theorem consistent_after (fs : List Function) : (after fs).Consistent := by
  induction fs using List.reverseRecOn with
  | nil =>
    intro name id
    simp [after, attempts, empty, lookup, get?]
  | append_singleton fs f ih =>
    rw [(after_concat fs f).1]
    rcases (after fs).attempt_cases f with ⟨id, -, hadds⟩ | ⟨e, he⟩
    · exact hadds.consistent ih
    · rw [he]
      exact ih

theorem extends_attempts (r : Registry) (fs : List Function) : r.Extends (r.attempts fs).2 := by
  induction fs generalizing r with
  | nil => exact .refl r
  | cons f fs ih =>
    have hrest := ih (r.attempt f).2
    rcases r.attempt_cases f with ⟨id, -, hadds⟩ | ⟨e, he⟩
    · exact hadds.extends.trans hrest
    · rw [he] at hrest
      simpa [attempts, he] using hrest

/-- The accepted functions are numbered in their order, and the registry has them under their numbers. -/
theorem accepted_after (fs : List Function) :
    (accepted fs (answers fs)).length = (after fs).size ∧
      ∀ i : Nat, (accepted fs (answers fs))[i]? = ((after fs).get? i).map (i, ·) := by
  induction fs using List.reverseRecOn with
  | nil => exact ⟨rfl, fun i => rfl⟩
  | append_singleton fs f ih =>
    obtain ⟨hlength, hentries⟩ := ih
    rw [accepted_concat, (after_concat fs f).1]
    rcases (after fs).attempt_cases f with ⟨id, hid, hadds⟩ | ⟨e, he⟩
    · obtain rfl := hadds.number
      rw [hid, hadds.size]
      refine ⟨by simp [hlength, Except.toOption], ?_⟩
      intro i
      rw [hadds.get]
      simp only [Except.toOption, Option.map_some, Option.toList_some, List.getElem?_append, hlength, hentries]
      by_cases hlt : i < (after fs).size
      · have hne : i ≠ (after fs).size := by omega
        simp [hlt, hne]
      · by_cases hlast : i = (after fs).size
        · simp [hlast]
        · have hbeyond : i - (after fs).size ≠ 0 := by omega
          have hnone : (after fs).get? i = none := get?_of_le (by omega)
          simp [hlt, hlast, hnone, hbeyond]
    · rw [he]
      simpa [Except.toOption] using ⟨hlength, hentries⟩

end Registry

open Registry in
/-- A registry after any registrations, some of them refused. A name leads to a number just when the number leads to
a function of that name, no two functions have one name, and the name itself leads to that very function. The
functions accepted have the numbers 0, 1, 2 and so on. With numbers left, the next registration is refused just when
its name is there already, and then nothing has changed; else the function is added under the next number. Whatever
is registered later, all that was found before is found again. -/
theorem registry_consistent (fs : List Function) :
    (∀ name id, (after fs).lookup name = some id ↔ ∃ f, (after fs).get? id = some f ∧ f.name = name) ∧
    (∀ i j f g, (after fs).get? i = some f → (after fs).get? j = some g → f.name = g.name → i = j) ∧
    (∀ name id, (after fs).lookup name = some id → ∃ f, f.name = name ∧ (after fs).get? id = some f ∧
      (after fs).getByName? name = some f ∧ (after fs).isSame? name id = some true) ∧
    (∀ name, (after fs).lookup name = none → (after fs).getByName? name = none) ∧
    (∀ i, (accepted fs (answers fs))[i]? = ((after fs).get? i).map (i, ·)) ∧
    (∀ f, (after fs).size < capacity →
      ((∃ e, (after fs).register f = .error e) ↔ ∃ id, (after fs).lookup f.name = some id) ∧
      ∀ e, (after fs).register f = .error e → e = .duplicate f.name) ∧
    (∀ f e, (after fs).register f = .error e →
      (enter f).run (after fs) = (.error e, after fs) ∧ after (fs ++ [f]) = after fs) ∧
    (∀ f id r, (after fs).register f = .ok (id, r) →
      (enter f).run (after fs) = (.ok id, r) ∧ after (fs ++ [f]) = r ∧ Adds (after fs) f id r) ∧
    (∀ gs, (after fs).Extends (after (fs ++ gs))) ∧
    (after fs).size ≤ fs.length := by
  have hindex := consistent_after fs
  refine ⟨hindex, ?_, ?_, ?_, (accepted_after fs).2, fun f hroom => refused_iff hroom, ?_, ?_, ?_, ?_⟩
  · intro i j f g hf hg hname
    have hi := (hindex f.name i).mpr ⟨f, hf, rfl⟩
    have hj := (hindex f.name j).mpr ⟨g, hg, hname.symm⟩
    exact Option.some.inj (hi.symm.trans hj)
  · intro name id hid
    obtain ⟨f, hf, hname⟩ := (hindex name id).mp hid
    have hfound : (after fs).getByName? name = some f := by rw [getByName?, hid]; exact hf
    exact ⟨f, hname, hf, hfound, by simp [isSame?, hfound, hf, hid]⟩
  · intro name hnone
    rw [getByName?, hnone]
    rfl
  · intro f e he
    refine ⟨enter_of_register_error he, ?_⟩
    rw [(after_concat fs f).1, attempt, he]
  · intro f id r hr
    refine ⟨enter_of_register_ok hr, ?_, adds_of_register hr⟩
    rw [(after_concat fs f).1, attempt, hr]
  · intro gs
    rw [after_append]
    exact extends_attempts (after fs) gs
  · rw [← (accepted_after fs).1, accepted]
    refine Nat.le_trans (List.length_filterMap_le ..) ?_
    rw [List.length_zip]
    exact Nat.min_le_left ..

open Registry in
/-- Two functions, and a third under the name of the first. -/
theorem registry_consistent_of_namesake :
    let f : Function := ⟨"f", 0, 0, #[]⟩
    let g : Function := ⟨"g", 0, 0, #[]⟩
    let f' : Function := ⟨"f", 1, 0, #[]⟩
    answers [f, g, f'] = [.ok 0, .ok 1, .error (.duplicate "f")] ∧ (after [f]).size < capacity ∧
      (∃ r, (after [f]).register g = .ok (1, r) ∧ after [f, g] = r ∧ Adds (after [f]) g 1 r) ∧
      (after [f, g]).size < capacity ∧ (∃ id, (after [f, g]).lookup f'.name = some id) ∧
      (after [f, g]).register f' = .error (.duplicate "f") ∧ after [f, g, f'] = after [f, g] := by
  intro f g f'
  have hanswers : answers [f, g, f'] = [.ok 0, .ok 1, .error (.duplicate "f")] := by decide +kernel
  have hsize : (after [f]).size < capacity := by decide +kernel
  have hsize' : (after [f, g]).size < capacity := by decide +kernel
  have hname : ((after [f, g]).lookup f'.name).isSome = true := by decide +kernel
  obtain ⟨-, -, -, -, -, hrefused, hsame, -⟩ := registry_consistent [f, g]
  obtain ⟨-, -, -, -, -, -, -, hadded, -⟩ := registry_consistent [f]
  obtain ⟨hiff, hcause⟩ := hrefused f' hsize'
  obtain ⟨e, he⟩ := hiff.mpr (Option.isSome_iff_exists.mp hname)
  obtain rfl := hcause e he
  have hnumber : ((after [f]).register g).toOption.map Prod.fst = some 1 := by decide +kernel
  obtain ⟨⟨id, r⟩, hr, rfl⟩ := Option.map_eq_some_iff.mp hnumber
  have hr' : (after [f]).register g = .ok (1, r) := by
    cases hg : (after [f]).register g with
    | ok p =>
      rw [hg] at hr
      cases hr
      rfl
    | error e =>
      rw [hg] at hr
      cases hr
  exact ⟨hanswers, hsize, ⟨r, hr', (hadded g 1 r hr').2⟩, hsize', hiff.mp ⟨_, he⟩, he, (hsame f' _ he).2⟩

end YieldMachine
