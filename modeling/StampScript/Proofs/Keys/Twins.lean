import StampScript.Proofs.Keys.Unfolding

/-!
# Objects with the same entries

Two objects with the same entries have the same key, with one exception.  The recursion that builds
keys recognises a container that is open as being itself, and of the two objects it is another one
that is open in each case.  So where the entries lead back to one of the two, the keys tell them
apart.

* `Heap.Descends` — the values that the recursion comes to, each on the path that is open by then.
* `Heap.Reaches.descends` — it comes to all containers that are reached.
* **`Heap.same_objects_iff`** — when objects with the same entries are equal.
-/

namespace StampScript

open Relation

namespace Heap

variable {h : Heap} {v w x : Value} {c d : Container} {k k' : Key} {path path' : List Container}
  {keyOf keyOf' : Value → Key}

/-! ## Keys with other containers open -/

/-- Only the open containers that a value reaches make a difference to its key. -/
lemma GuardedKey.congr (hk : h.GuardedKey path v k) : ∀ {path' : List Container},
    (∀ c, h.Reaches v c → (c ∈ path ↔ c ∈ path')) → h.GuardedKey path' v k := by
  induction hk with
  | flat hv =>
      intro _ _
      exact .flat hv
  | again hc hmem =>
      intro path' hpath
      exact .again hc ((hpath _ (reaches_of_container hc)).mp hmem)
  | opened hc hnot _ ih =>
      intro path' hpath
      refine .opened hc (fun hmem => hnot ((hpath _ (reaches_of_container hc)).mpr hmem)) ?_
      intro w hw
      refine ih w hw ?_
      intro d hd
      simp only [List.mem_cons, hpath d (hd.inside hc hw)]

lemma keyAround_inj : ∀ {v : Value}, v.container? = some c → v.keyAround k = v.keyAround k' → k = k'
  | .array _, _, hk => hk
  | .object _, _, hk => hk
  | .struct _, _, hk => hk
  | .tag _ _ (some p), hc, hk => keyAround_inj (v := p) hc (Option.some.inj (Key.tag.inj hk).2.2)

lemma contentKey_inj (hk : h.contentKey keyOf c = h.contentKey keyOf' c) :
    ∀ w ∈ h.inside c, keyOf w = keyOf' w := by
  intro w hw
  cases c with
  | array ref => exact List.map_inj_left.mp (Key.array.inj hk) w hw
  | object ref =>
      obtain ⟨e, he, rfl⟩ := List.mem_map.mp hw
      exact (Prod.mk.inj (List.map_inj_left.mp (Key.object.inj hk) e he)).2
  | struct ref =>
      obtain ⟨e, he, rfl⟩ := List.mem_map.mp hw
      exact (Prod.mk.inj (List.map_inj_left.mp (Key.struct.inj hk).2 e he)).2

lemma contentKey_ne_identity {i : Identity} : h.contentKey keyOf c ≠ .identity i := by
  intro hk
  cases c <;> cases hk

/-- A value cannot have the same key where its container is open and where it is not. -/
lemma GuardedKey.container?_ne (hk : h.GuardedKey path v k) (hk' : h.GuardedKey path' v k)
    (hmem : c ∈ path) (hnot : c ∉ path') : v.container? ≠ some c := by
  intro hc
  obtain ⟨keyOf, hopened, -⟩ := hk'.of_not_mem hc hnot
  rw [hk.of_mem hc hmem] at hopened
  exact contentKey_ne_identity (keyAround_inj hc hopened).symm

/-! ## On the way down -/

/-- The values that the recursion comes to on its way down from a value, each with the containers
that are open by then. -/
inductive Descends (h : Heap) (v : Value) : List Container → Value → Prop
  | here : Descends h v [] v
  | down {path : List Container} {w x : Value} {c : Container} : Descends h v path w →
      w.container? = some c → c ∉ path → x ∈ h.inside c → Descends h v (c :: path) x

/-- The recursion comes to a container that is not open. -/
def Opens (h : Heap) (v : Value) (c : Container) : Prop :=
  ∃ path w, h.Descends v path w ∧ w.container? = some c ∧ c ∉ path

lemma Descends.opens_of_mem (hd : h.Descends v path w) : ∀ c ∈ path, h.Opens v c := by
  induction hd with
  | here =>
      intro c hc
      cases hc
  | down hd hc hnot _ ih =>
      intro d hmem
      rcases List.mem_cons.mp hmem with rfl | hmem
      · exact ⟨_, _, hd, hc, hnot⟩
      · exact ih d hmem

lemma Descends.opens (hd : h.Descends v path w) (hc : w.container? = some c) : h.Opens v c := by
  by_cases hmem : c ∈ path
  · exact hd.opens_of_mem c hmem
  · exact ⟨path, w, hd, hc, hmem⟩

/-- **The recursion opens all containers that the value reaches**, on one path or another. -/
theorem Reaches.opens (hd : h.Reaches v d) : h.Opens v d := by
  obtain ⟨c, hc, hcd⟩ := hd
  -- along the way to the container: what holds the next one has been opened
  induction hcd with
  | refl => exact Descends.here.opens hc
  | tail _ hstep ih =>
      obtain ⟨x, hx, he⟩ := hstep
      obtain ⟨path, w, hw, hcw, hnot⟩ := ih
      exact (hw.down hcw hnot hx).opens he

/-- Where a value has the same key whichever of two containers is open, the recursion takes the same
way down in both cases, with the same keys, and opens neither. -/
lemma Descends.abreast (hne : c ≠ d) (hk : h.GuardedKey [c] v k) (hk' : h.GuardedKey [d] v k)
    (hd : h.Descends v path w) : c ∉ path ∧ d ∉ path
      ∧ ∃ k, h.GuardedKey (path ++ [c]) w k ∧ h.GuardedKey (path ++ [d]) w k := by
  induction hd with
  | here => exact ⟨List.not_mem_nil, List.not_mem_nil, k, hk, hk'⟩
  | @down path w x b _ hb hnot hx ih =>
      obtain ⟨hc, hd, k, hk, hk'⟩ := ih
      have hbc : b ≠ c := fun he =>
        hk.container?_ne hk' (by simp) (by simp [hc, hne]) (he ▸ hb)
      have hbd : b ≠ d := fun he =>
        hk'.container?_ne hk (by simp) (by simp [hd, hne.symm]) (he ▸ hb)
      obtain ⟨keyOf, hkey, hin⟩ := hk.of_not_mem hb (by simp [hnot, hbc])
      obtain ⟨keyOf', hkey', hin'⟩ := hk'.of_not_mem hb (by simp [hnot, hbd])
      have hinside := contentKey_inj (keyAround_inj hb (hkey.symm.trans hkey')) x hx
      refine ⟨by simp [hc, hbc.symm], by simp [hd, hbd.symm], keyOf x, hin x hx, ?_⟩
      rw [hinside]
      exact hin' x hx

/-- Where a value has the same key whichever of two containers is open, it reaches neither. -/
lemma GuardedKey.not_reaches (hne : c ≠ d) (hk : h.GuardedKey [c] v k)
    (hk' : h.GuardedKey [d] v k) : ¬ h.Reaches v c ∧ ¬ h.Reaches v d := by
  constructor
  · intro hreach
    obtain ⟨path, w, hw, hc, -⟩ := hreach.opens
    obtain ⟨hcpath, -, k, hwk, hwk'⟩ := hw.abreast hne hk hk'
    exact hwk.container?_ne hwk' (by simp) (by simp [hcpath, hne]) hc
  · intro hreach
    obtain ⟨path, w, hw, hd, -⟩ := hreach.opens
    obtain ⟨-, hdpath, k, hwk, hwk'⟩ := hw.abreast hne hk hk'
    exact hwk'.container?_ne hwk (by simp) (by simp [hdpath, hne.symm]) hd

/-! ## Two objects -/

/-- The key of an object, from the keys of its values inside it. -/
lemma exists_key_object (h : Heap) (ref : Nat) : ∃ keyOf,
    h.key (.object ref) = h.contentKey keyOf (.object ref)
      ∧ ∀ e ∈ (h.object ref).entries, h.GuardedKey [.object ref] e.2.2 (keyOf e.2.2) := by
  have hkey : h.GuardedKey [] (.object ref) (h.key (.object ref)) := guardedKey_iff.mpr rfl
  obtain ⟨keyOf, hk, hin⟩ := hkey.of_not_mem rfl List.not_mem_nil
  exact ⟨keyOf, hk, fun e he => hin _ (List.mem_map_of_mem he)⟩

/-- **Objects with the same entries are equal exactly when they are one object, or none of their
values leads back to one of them.** -/
theorem same_objects_iff {ref ref' : Nat}
    (hentries : (h.object ref).entries = (h.object ref').entries) :
    h.same (.object ref) (.object ref') = true ↔ ref = ref' ∨ ∀ e ∈ (h.object ref).entries,
      ¬ h.Reaches e.2.2 (.object ref) ∧ ¬ h.Reaches e.2.2 (.object ref') := by
  rw [same, beq_iff_eq]
  by_cases href : ref = ref'
  · simp [href]
  have hne : Container.object ref ≠ .object ref' := fun he => href (Container.object.inj he)
  obtain ⟨keyOf, hkey, hin⟩ := exists_key_object h ref
  obtain ⟨keyOf', hkey', hin'⟩ := exists_key_object h ref'
  rw [← hentries] at hin'
  have hcontent : h.contentKey keyOf' (.object ref') = h.contentKey keyOf' (.object ref) := by
    simp only [contentKey, hentries]
  rw [hkey, hkey', hcontent]
  simp only [href, false_or]
  constructor
  · intro hk e he
    have hvalue := contentKey_inj hk e.2.2 (List.mem_map_of_mem he)
    exact (hin e he).not_reaches hne (hvalue ▸ hin' e he)
  · intro hout
    refine contentKey_eq (.refl h _) ?_
    intro v hv
    obtain ⟨e, he, rfl⟩ := List.mem_map.mp hv
    obtain ⟨hout, hout'⟩ := hout e he
    refine (hin e he).congr ?_ |>.unique (hin' e he)
    intro c hc
    have hc₁ : c ≠ .object ref := fun h' => hout (h' ▸ hc)
    have hc₂ : c ≠ .object ref' := fun h' => hout' (h' ▸ hc)
    simp [hc₁, hc₂]

end Heap

end StampScript
