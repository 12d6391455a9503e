import YieldMachine.Value.Basic

/-!
The structure of values: what a value holds at any depth, induction over it, and comparison along it. Two values
match if they do so outright, or if they are both tables or both objects and their contents match in order
(`Value.Matches`). What it means to match outright is left open; matching can be turned round
(`Matches.symm`), loosened (`Matches.bind`) and composed (`Matches.comp`).
-/

namespace YieldMachine

namespace Value

/-- Whether a value has contents. -/
def isCompound : Value → Bool
  | .array .. | .object .. => true
  | _ => false

/-- Induction over a value, through tables and objects. -/
@[elab_as_elim]
theorem byContents {P : Value → Prop} (simple : ∀ v, v.isCompound = false → P v)
    (array : ∀ (i : AllocationId) (t : Table Value), (∀ v ∈ t.values, P v) → P (.array i t))
    (object : ∀ (i : AllocationId) (o : Object Value), (∀ v ∈ o.properties.map Prod.snd, P v) →
      P (.object i o)) (v : Value) : P v :=
  @Value.rec P (fun t => ∀ v ∈ t.values, P v) (fun o => ∀ v ∈ o.properties.map Prod.snd, P v)
    (fun es => ∀ v ∈ es.toList.map Prod.snd, P v) (fun ps => ∀ v ∈ ps.map Prod.snd, P v)
    (fun es => ∀ v ∈ es.map Prod.snd, P v) (fun p => P p.2) (fun e => P e.2)
    (simple _ rfl) (fun _ => simple _ rfl) (fun _ => simple _ rfl) (fun _ => simple _ rfl)
    (fun _ => simple _ rfl) array object (fun _ => simple _ rfl) (fun _ => simple _ rfl)
    (fun _ => simple _ rfl) (fun _ _ _ h => h) (fun _ _ h => h) (fun _ h => h) nofun
    (fun _ _ hp hps => List.forall_mem_cons.mpr ⟨hp, hps⟩) nofun
    (fun _ _ he hes => List.forall_mem_cons.mpr ⟨he, hes⟩) (fun _ _ h => h) (fun _ _ h => h) v

/-- The first value is the second or holds it, through tables and objects but not through cells. -/
inductive Holds : Value → Value → Prop where
  | self (v : Value) : Holds v v
  | entry {i : AllocationId} {t : Table Value} {v w : Value} (hv : v ∈ t.values) (h : Holds v w) :
      Holds (.array i t) w
  | property {i : AllocationId} {o : Object Value} {v w : Value} (hv : v ∈ o.properties.map Prod.snd)
      (h : Holds v w) : Holds (.object i o) w

theorem Holds.trans {u v w : Value} (h : u.Holds v) (h' : v.Holds w) : u.Holds w := by
  induction h with
  | self => exact h'
  | entry hv _ ih => exact .entry hv (ih h')
  | property hv _ ih => exact .property hv (ih h')

theorem holds_simple_iff {v w : Value} (hv : v.isCompound = false) : v.Holds w ↔ v = w := by
  refine ⟨fun h => ?_, fun h => h ▸ .self v⟩
  cases h with
  | self => rfl
  | entry | property => cases hv

theorem holds_array_iff {i : AllocationId} {t : Table Value} {w : Value} :
    (Value.array i t).Holds w ↔ .array i t = w ∨ ∃ v ∈ t.values, v.Holds w := by
  constructor
  · intro h
    cases h with
    | self => exact .inl rfl
    | entry hv h => exact .inr ⟨_, hv, h⟩
  · rintro (rfl | ⟨v, hv, h⟩)
    · exact .self _
    · exact .entry hv h

/-- A property that passes from a value to all that it holds. -/
def Inherited (D : Value → Prop) : Prop := ∀ {v w : Value}, v.Holds w → D v → D w

/-- Comparison along the structure; `outright` says which values match without a look at their contents. -/
inductive Matches (outright : Value → Value → Prop) : Value → Value → Prop where
  | outright {v w : Value} (h : outright v w) : Matches outright v w
  | array {i j : AllocationId} {t u : Table Value} (hkeys : t.keys = u.keys)
      (hvalues : ∀ (n : Nat) v w, t.values[n]? = some v → u.values[n]? = some w → Matches outright v w) :
      Matches outright (.array i t) (.array j u)
  | object {i j : AllocationId} {o p : Object Value} (hclass : o.className = p.className)
      (hnames : o.properties.map Prod.fst = p.properties.map Prod.fst)
      (hvalues : ∀ (n : Nat) v w, (o.properties.map Prod.snd)[n]? = some v →
        (p.properties.map Prod.snd)[n]? = some w → Matches outright v w) :
      Matches outright (.object i o) (.object j p)

namespace Matches

variable {R S T : Value → Value → Prop} {u v w : Value}

theorem symm (hR : ∀ {v w : Value}, R v w → S w v) (h : v.Matches R w) : w.Matches S v := by
  induction h with
  | outright h => exact .outright (hR h)
  | array hkeys _ ih => exact .array hkeys.symm fun n v w hv hw => ih n w v hw hv
  | object hclass hnames _ ih =>
    exact .object hclass.symm hnames.symm fun n v w hv hw => ih n w v hw hv

/-- What matches outright may match in another way instead, where that is so for all that the values hold. -/
theorem bind {D D' : Value → Prop} (hD : Inherited D) (hD' : Inherited D')
    (hR : ∀ {v w : Value}, D v → D' w → R v w → v.Matches S w) (h : v.Matches R w) (hv : D v) (hw : D' w) :
    v.Matches S w := by
  induction h with
  | outright h => exact hR hv hw h
  | array hkeys _ ih =>
    refine .array hkeys fun n v' w' hv' hw' => ih n v' w' hv' hw' ?_ ?_
    · exact hD (.entry (List.mem_of_getElem? hv') (.self _)) hv
    · exact hD' (.entry (List.mem_of_getElem? hw') (.self _)) hw
  | object hclass hnames _ ih =>
    refine .object hclass hnames fun n v' w' hv' hw' => ih n v' w' hv' hw' ?_ ?_
    · exact hD (.property (List.mem_of_getElem? hv') (.self _)) hv
    · exact hD' (.property (List.mem_of_getElem? hw') (.self _)) hw

/-- Lists of named values with the same names have a value at the same places. -/
theorem exists_value {κ : Type} {es fs : List (κ × Value)} (hnames : es.map Prod.fst = fs.map Prod.fst)
    {n : Nat} (hv : (es.map Prod.snd)[n]? = some v) : ∃ w, (fs.map Prod.snd)[n]? = some w := by
  have hlength := congrArg List.length hnames
  obtain ⟨hn, -⟩ := List.getElem?_eq_some_iff.mp hv
  simp only [List.length_map] at hlength hn
  exact ⟨_, List.getElem?_eq_getElem (by simpa using hlength ▸ hn)⟩

/-- Two matches in a row make one, where that is so if one of them is outright. -/
theorem comp {D : Value → Prop} (hD : Inherited D)
    (hleft : ∀ {u v w : Value}, D u → D v → R u v → v.Matches S w → u.Matches T w)
    (hright : ∀ {u v w : Value}, D v → D w → u.Matches R v → S v w → u.Matches T w)
    (h : u.Matches R v) (h' : v.Matches S w) (hu : D u) (hv : D v) (hw : D w) : u.Matches T w := by
  induction h generalizing w with
  | outright h => exact hleft hu hv h h'
  | array hkeys hvalues ih =>
    cases h' with
    | outright h' => exact hright hv hw (.array hkeys hvalues) h'
    | array hkeys' hvalues' =>
      refine .array (hkeys.trans hkeys') fun n a c ha hc => ?_
      obtain ⟨b, hb⟩ := exists_value hkeys ha
      refine ih n a b ha hb (hvalues' n b c hb hc) ?_ ?_ ?_
      · exact hD (.entry (List.mem_of_getElem? ha) (.self _)) hu
      · exact hD (.entry (List.mem_of_getElem? hb) (.self _)) hv
      · exact hD (.entry (List.mem_of_getElem? hc) (.self _)) hw
  | object hclass hnames hvalues ih =>
    cases h' with
    | outright h' => exact hright hv hw (.object hclass hnames hvalues) h'
    | object hclass' hnames' hvalues' =>
      refine .object (hclass.trans hclass') (hnames.trans hnames') fun n a c ha hc => ?_
      obtain ⟨b, hb⟩ := exists_value hnames ha
      refine ih n a b ha hb (hvalues' n b c hb hc) ?_ ?_ ?_
      · exact hD (.property (List.mem_of_getElem? ha) (.self _)) hu
      · exact hD (.property (List.mem_of_getElem? hb) (.self _)) hv
      · exact hD (.property (List.mem_of_getElem? hc) (.self _)) hw

end Matches

end Value

end YieldMachine
