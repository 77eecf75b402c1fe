import StampScript.Proofs.Keys.Equality
import StampScript.Proofs.Keys.Reach

/-!
# Keys and what values unfold to

The key of a value is built by going down into it.  A guard keeps the containers that are open at
the moment, and does not open one of them again.  `Heap.key` runs this within a number of levels;
here the recursion stands on its own, with its guard and without it, so that it can be said where
each of them comes to an end.

With the guard it always does: every container that is opened is one that was not open yet, and
there are only so many of them.  Without the guard it does exactly on values in which nothing
contains itself, and there the guard makes no difference.  So the key of such a value is made of the
keys of its parts, and forgets where parts are shared.

* `Heap.GuardedKey`, `Heap.NaiveKey` — the recursion with its guard and without it.
* `Heap.guardedKey_iff` — with the guard, it comes to the key of the value, and to nothing else.
* `Heap.naiveKey_iff` — without the guard it does so exactly on acyclic values.
* `Heap.Alike`, `Heap.Acyclic.key_eq_iff` — two values unfold to the same tree, which acyclic values
  do exactly when they have the same key.
* **`keys_forget_sharing`** — the three together, with the equality of values.
-/

namespace StampScript

open Relation

/-- The key of a value, given the key of the container in it. -/
def Value.keyAround (k : Key) (v : Value) : Key := v.keyWith (fun _ _ => k) []

namespace Heap

variable {h : Heap} {v w : Value} {c d : Container} {k : Key} {path : List Container}

/-! ## The recursion -/

/-- The recursion that builds keys, inside the containers of a path.  One of these is recognised as
being itself, and any other container is opened for what is inside it. -/
inductive GuardedKey (h : Heap) : List Container → Value → Key → Prop
  | flat {path : List Container} {v : Value} : v.container? = none →
      GuardedKey h path v (v.keyAround .none)
  | again {path : List Container} {v : Value} {c : Container} : v.container? = some c → c ∈ path →
      GuardedKey h path v (v.keyAround (.identity (.cycle c)))
  | opened {path : List Container} {v : Value} {c : Container} {keyOf : Value → Key} :
      v.container? = some c → c ∉ path →
      (∀ w ∈ h.inside c, GuardedKey h (c :: path) w (keyOf w)) →
      GuardedKey h path v (v.keyAround (h.contentKey keyOf c))

/-- The recursion without its guard: every container is opened. -/
inductive NaiveKey (h : Heap) : Value → Key → Prop
  | flat {v : Value} : v.container? = none → NaiveKey h v (v.keyAround .none)
  | opened {v : Value} {c : Container} {keyOf : Value → Key} : v.container? = some c →
      (∀ w ∈ h.inside c, NaiveKey h w (keyOf w)) → NaiveKey h v (v.keyAround (h.contentKey keyOf c))

/-- No container that the value reaches is reached from itself. -/
def Acyclic (h : Heap) (v : Value) : Prop := ∀ c, h.Reaches v c → ¬ TransGen h.Holds c c

lemma keyWith_of_flat {inside : Container → List Container → Key} (hv : v.container? = none) :
    v.keyWith inside path = v.keyAround .none := by
  refine keyWith_eq fun c hc => ?_
  rw [hv] at hc
  cases hc

lemma keyWith_of_container {inside : Container → List Container → Key}
    (hc : v.container? = some c) : v.keyWith inside path = v.keyAround (inside c path) := by
  refine keyWith_eq fun d hd => ?_
  rw [hc] at hd
  cases hd
  rfl

/-- There is nothing inside a container that is not there. -/
lemma inside_eq_nil (hc : ¬ h.Has c) : h.inside c = [] := by
  cases c with
  | array ref =>
      have hnone : h.arrays[ref]? = none := Array.getElem?_eq_none (Nat.le_of_not_lt hc)
      simp only [inside, array, Array.getD_eq_getD_getElem?, hnone]
      rfl
  | object ref =>
      have hnone : h.objects[ref]? = none := Array.getElem?_eq_none (Nat.le_of_not_lt hc)
      simp only [inside, object, Array.getD_eq_getD_getElem?, hnone]
      rfl
  | struct ref =>
      have hnone : h.structs[ref]? = none := Array.getElem?_eq_none (Nat.le_of_not_lt hc)
      simp only [inside, struct, Array.getD_eq_getD_getElem?, hnone]
      rfl

lemma Reaches.inside (hc : v.container? = some c) (hw : w ∈ h.inside c) (hd : h.Reaches w d) :
    h.Reaches v d := by
  obtain ⟨e, he, hed⟩ := hd
  exact ⟨c, hc, .head ⟨w, hw, he⟩ hed⟩

lemma acyclic_of_flat (hv : v.container? = none) : h.Acyclic v := by
  rintro c ⟨d, hd, -⟩
  rw [hv] at hd
  cases hd

lemma Acyclic.inside (hv : h.Acyclic v) (hc : v.container? = some c) (hw : w ∈ h.inside c) :
    h.Acyclic w := fun d hd => hv d (hd.inside hc hw)

lemma acyclic_of_inside (hc : v.container? = some c) (hin : ∀ w ∈ h.inside c, h.Acyclic w) :
    h.Acyclic v := by
  rintro d ⟨c', hc', hd⟩ hround
  obtain rfl : c = c' := by simpa [hc] using hc'
  -- the way round goes through something inside, which is known not to come back
  have hstep : ∃ e, h.Holds c e ∧ ReflTransGen h.Holds e d := by
    rcases hd.cases_head with rfl | hd
    · exact TransGen.head'_iff.mp hround
    · exact hd
  obtain ⟨e, ⟨w, hw, he⟩, hed⟩ := hstep
  exact hin w hw d ⟨e, he, hed⟩ hround

/-! ## With the guard -/

/-- **The recursion comes to an end on every path**, as many levels down as there are containers
that are not on it. -/
theorem guardedKey_keyWith {n : Nat} : ∀ {path : List Container} {v : Value},
    (unvisited h.all path).card < n → h.GuardedKey path v (v.keyWith (h.containerKey n) path) := by
  induction n with
  | zero =>
      intro path v hn
      exact absurd hn (Nat.not_lt_zero _)
  | succ n ih =>
      intro path v hn
      cases hc : v.container? with
      | none =>
          rw [keyWith_of_flat hc]
          exact .flat hc
      | some c =>
          rw [keyWith_of_container hc]
          by_cases hmem : c ∈ path
          · simp only [containerKey, hmem, if_true]
            exact .again hc hmem
          · simp only [containerKey, hmem, if_false]
            refine .opened hc hmem ?_
            intro w hw
            have hhas : h.Has c := by
              by_contra hno
              rw [inside_eq_nil hno] at hw
              cases hw
            -- one container fewer is left to be opened
            have hlt := card_unvisited_cons_lt (mem_all hhas) hmem
            exact ih (by omega)

lemma GuardedKey.of_mem (hk : h.GuardedKey path v k) (hc : v.container? = some c)
    (hmem : c ∈ path) : k = v.keyAround (.identity (.cycle c)) := by
  cases hk with
  | flat hv => simp [hv] at hc
  | again hc' =>
      rw [hc] at hc'
      cases hc'
      rfl
  | opened hc' hnot =>
      rw [hc] at hc'
      cases hc'
      exact absurd hmem hnot

lemma GuardedKey.of_not_mem (hk : h.GuardedKey path v k) (hc : v.container? = some c)
    (hnot : c ∉ path) : ∃ keyOf, k = v.keyAround (h.contentKey keyOf c)
      ∧ ∀ w ∈ h.inside c, h.GuardedKey (c :: path) w (keyOf w) := by
  cases hk with
  | flat hv => simp [hv] at hc
  | again hc' hmem =>
      rw [hc] at hc'
      cases hc'
      exact absurd hmem hnot
  | @opened _ _ _ keyOf hc' _ hin =>
      rw [hc] at hc'
      cases hc'
      exact ⟨keyOf, rfl, hin⟩

/-- It comes to one key only. -/
lemma GuardedKey.unique (hk : h.GuardedKey path v k) : ∀ {k' : Key}, h.GuardedKey path v k' →
    k = k' := by
  induction hk with
  | flat hv =>
      intro k' hk'
      cases hk' with
      | flat => rfl
      | again hc => simp [hv] at hc
      | opened hc => simp [hv] at hc
  | again hc hmem =>
      intro k' hk'
      exact (hk'.of_mem hc hmem).symm
  | opened hc hnot _ ih =>
      intro k' hk'
      obtain ⟨keyOf', rfl, hin⟩ := hk'.of_not_mem hc hnot
      rw [contentKey_eq (.refl h _) fun w hw => ih w hw (hin w hw)]

/-- **With its guard, the recursion comes to the key of the value, and to nothing else.** -/
theorem guardedKey_iff : h.GuardedKey [] v k ↔ k = h.key v := by
  have hkey : h.GuardedKey [] v (h.key v) := by
    refine guardedKey_keyWith ?_
    have hcard : (unvisited h.all []).card ≤ h.all.card := Finset.card_filter_le _ _
    have hall := h.card_all_le
    omega
  constructor
  · intro hk
    exact hk.unique hkey
  · rintro rfl
    exact hkey

/-! ## Without the guard -/

/-- Where nothing contains itself, the guard never finds a container that is open. -/
lemma GuardedKey.naive (hk : h.GuardedKey path v k) (hv : h.Acyclic v)
    (hpath : ∀ c ∈ path, ∀ d, v.container? = some d → TransGen h.Holds c d) : h.NaiveKey v k := by
  induction hk with
  | flat hflat => exact .flat hflat
  | again hc hmem => exact absurd (hpath _ hmem _ hc) (hv _ (reaches_of_container hc))
  | @opened path v c keyOf hc _ _ ih =>
      refine .opened hc ?_
      intro w hw
      refine ih w hw (hv.inside hc hw) ?_
      intro b hb d hd
      have hcd : h.Holds c d := ⟨w, hw, hd⟩
      rcases List.mem_cons.mp hb with rfl | hb
      · exact .single hcd
      · exact (hpath b hb c hc).tail hcd

lemma NaiveKey.unique (hk : h.NaiveKey v k) : ∀ {k' : Key}, h.NaiveKey v k' → k = k' := by
  induction hk with
  | flat hv =>
      intro k' hk'
      cases hk' with
      | flat => rfl
      | opened hc => simp [hv] at hc
  | opened hc _ ih =>
      intro k' hk'
      cases hk' with
      | flat hv => simp [hv] at hc
      | opened hc' hin =>
          rw [hc] at hc'
          cases hc'
          rw [contentKey_eq (.refl h _) fun w hw => ih w hw (hin w hw)]

/-- Where the recursion comes to an end without a guard, nothing contains itself. -/
lemma NaiveKey.acyclic (hk : h.NaiveKey v k) : h.Acyclic v := by
  induction hk with
  | flat hflat => exact acyclic_of_flat hflat
  | opened hc _ ih => exact acyclic_of_inside hc ih

/-- **Without its guard, the recursion comes to the key of the value as well, and does so exactly
when the value is acyclic.** -/
theorem naiveKey_iff : h.NaiveKey v k ↔ h.Acyclic v ∧ k = h.key v := by
  have hkey : h.Acyclic v → h.NaiveKey v (h.key v) := by
    intro hv
    refine (guardedKey_iff.mpr rfl).naive hv ?_
    intro c hc
    cases hc
  constructor
  · intro hk
    exact ⟨hk.acyclic, hk.unique (hkey hk.acyclic)⟩
  · rintro ⟨hv, rfl⟩
    exact hkey hv

/-- What holds of every acyclic value if it does of all that is inside, holds of every acyclic
value. -/
lemma Acyclic.of_inside {motive : Value → Prop} (hv : h.Acyclic v)
    (hstep : ∀ v, h.Acyclic v → (∀ c, v.container? = some c → ∀ w ∈ h.inside c, motive w) →
      motive v) : motive v := by
  have hk : h.NaiveKey v (h.key v) := naiveKey_iff.mpr ⟨hv, rfl⟩
  generalize h.key v = k at hk
  -- by the recursion that builds the key
  induction hk with
  | flat hflat =>
      refine hstep _ hv ?_
      intro c hc
      rw [hflat] at hc
      cases hc
  | opened hc _ ih =>
      refine hstep _ hv ?_
      intro d hd w hw
      rw [hc] at hd
      cases hd
      exact ih w hw (hv.inside hc hw)

/-- The key of an acyclic container is made of the keys of what is inside. -/
lemma Acyclic.key_eq (hv : h.Acyclic v) (hc : v.container? = some c) :
    h.key v = v.keyAround (h.contentKey h.key c) := by
  have hkeys : ∀ w ∈ h.inside c, h.NaiveKey w (h.key w) := fun w hw =>
    naiveKey_iff.mpr ⟨hv.inside hc hw, rfl⟩
  exact (naiveKey_iff.mp (.opened hc hkeys)).2.symm

/-! ## Trees -/

/-- Two values unfold to the same tree.  They are leaves with the same key; or variants of the same
name with payloads that do, arrays of one length, objects with the same index keys, or instances of
structs of the same name with the same fields, and what they hold does so one by one. -/
inductive Alike (h : Heap) : Value → Value → Prop
  | leaf {v w : Value} : v.container? = none → w.container? = none →
      v.keyAround .none = w.keyAround .none → Alike h v w
  | variant {tag tag' : TagShape} {name : String} {p q : Value} : tag.name = tag'.name →
      Alike h p q → Alike h (.tag tag name (some p)) (.tag tag' name (some q))
  | array {a b : Nat} : (h.array a).items.size = (h.array b).items.size →
      (∀ p ∈ (h.array a).items.toList.zip (h.array b).items.toList, Alike h p.1 p.2) →
      Alike h (.array a) (.array b)
  | object {a b : Nat} : (h.object a).entries.map (·.1) = (h.object b).entries.map (·.1) →
      (∀ p ∈ (h.object a).entries.zip (h.object b).entries, Alike h p.1.2.2 p.2.2.2) →
      Alike h (.object a) (.object b)
  | struct {a b : Nat} : (h.parent a).name = (h.parent b).name →
      (h.struct a).fields.map (·.1) = (h.struct b).fields.map (·.1) →
      (∀ p ∈ (h.struct a).fields.zip (h.struct b).fields, Alike h p.1.2 p.2.2) →
      Alike h (.struct a) (.struct b)

/-- Two lists have the same images exactly when they are of one length and what stands at the same
place has the same image. -/
lemma map_eq_map_iff_zip {α β γ : Type} {f : α → γ} {g : β → γ} : ∀ {as : List α} {bs : List β},
    as.map f = bs.map g ↔ as.length = bs.length ∧ ∀ p ∈ as.zip bs, f p.1 = g p.2 := by
  intro as
  induction as with
  | nil =>
      intro bs
      cases bs <;> simp
  | cons a as ih =>
      intro bs
      cases bs with
      | nil => simp
      | cons b bs =>
          simp only [List.map_cons, List.cons.injEq, ih, List.length_cons, Nat.add_right_cancel_iff,
            List.zip_cons_cons, List.mem_cons, forall_eq_or_imp]
          tauto

/-- Lists of pairs, of which the second parts are seen through two functions. -/
lemma map_snd_eq_iff_zip {α β γ κ : Type} {f : α → γ} {g : β → γ} {as : List (κ × α)}
    {bs : List (κ × β)} : as.map (fun e => (e.1, f e.2)) = bs.map (fun e => (e.1, g e.2))
      ↔ as.map (·.1) = bs.map (·.1) ∧ ∀ p ∈ as.zip bs, f p.1.2 = g p.2.2 := by
  simp only [map_eq_map_iff_zip, Prod.mk.injEq]
  constructor
  · rintro ⟨hlength, hzip⟩
    exact ⟨⟨hlength, fun p hp => (hzip p hp).1⟩, fun p hp => (hzip p hp).2⟩
  · rintro ⟨⟨hlength, hkeys⟩, hzip⟩
    exact ⟨hlength, fun p hp => ⟨hkeys p hp, hzip p hp⟩⟩

lemma Acyclic.payload {tag : TagShape} {name : String} {p : Value}
    (hv : h.Acyclic (.tag tag name (some p))) : h.Acyclic p := hv

lemma Acyclic.key_array {a : Nat} (hv : h.Acyclic (.array a)) :
    h.key (.array a) = .array ((h.array a).items.toList.map h.key) := hv.key_eq rfl

lemma Acyclic.key_object {a : Nat} (hv : h.Acyclic (.object a)) :
    h.key (.object a) = .object ((h.object a).entries.map fun e => (e.1, h.key e.2.2)) :=
  hv.key_eq rfl

lemma Acyclic.key_struct {a : Nat} (hv : h.Acyclic (.struct a)) : h.key (.struct a)
    = .struct (h.parent a).name ((h.struct a).fields.map fun e => (e.1, h.key e.2)) :=
  hv.key_eq rfl

lemma key_leaf (hv : v.container? = none) : h.key v = v.keyAround .none := keyWith_of_flat hv

/-- Acyclic values that unfold to the same tree have the same key. -/
lemma Alike.key_eq (ha : h.Alike v w) : h.Acyclic v → h.Acyclic w → h.key v = h.key w := by
  induction ha with
  | leaf hflat hflat' hkey =>
      intro _ _
      rw [key_leaf hflat, key_leaf hflat', hkey]
  | @variant tag tag' name p q htag _ ih =>
      intro hv hw
      have hpq : h.key p = h.key q := ih hv.payload hw.payload
      change Key.tag tag.name name (some (h.key p)) = Key.tag tag'.name name (some (h.key q))
      rw [htag, hpq]
  | array hsize _ ih =>
      intro hv hw
      rw [hv.key_array, hw.key_array, map_eq_map_iff_zip.mpr]
      refine ⟨hsize, ?_⟩
      intro p hp
      obtain ⟨ha, hb⟩ := List.of_mem_zip hp
      exact ih p hp (hv.inside rfl ha) (hw.inside rfl hb)
  | object hkeys _ ih =>
      intro hv hw
      rw [hv.key_object, hw.key_object]
      let valueKey : Value × Value → Key := fun e => h.key e.2
      refine congrArg Key.object
        ((map_snd_eq_iff_zip (f := valueKey) (g := valueKey)).mpr ⟨hkeys, ?_⟩)
      intro p hp
      obtain ⟨ha, hb⟩ := List.of_mem_zip hp
      exact ih p hp (hv.inside rfl (List.mem_map_of_mem ha))
        (hw.inside rfl (List.mem_map_of_mem hb))
  | struct hname hnames _ ih =>
      intro hv hw
      rw [hv.key_struct, hw.key_struct, hname]
      refine congrArg (Key.struct _) (map_snd_eq_iff_zip.mpr ⟨hnames, ?_⟩)
      intro p hp
      obtain ⟨ha, hb⟩ := List.of_mem_zip hp
      exact ih p hp (hv.inside rfl (List.mem_map_of_mem ha))
        (hw.inside rfl (List.mem_map_of_mem hb))

/-! ## Trees from keys -/

lemma array_of_key {ks : List Key} (hw : h.Acyclic w) (hk : h.key w = .array ks) :
    ∃ b, w = .array b := by
  cases w with
  | array b => exact ⟨b, rfl⟩
  | object b => rw [hw.key_object] at hk; cases hk
  | struct b => rw [hw.key_struct] at hk; cases hk
  | tag tag name p => cases p <;> cases hk
  | _ => cases hk

lemma object_of_key {es : List (Key × Key)} (hw : h.Acyclic w) (hk : h.key w = .object es) :
    ∃ b, w = .object b := by
  cases w with
  | object b => exact ⟨b, rfl⟩
  | array b => rw [hw.key_array] at hk; cases hk
  | struct b => rw [hw.key_struct] at hk; cases hk
  | tag tag name p => cases p <;> cases hk
  | _ => cases hk

lemma struct_of_key {name : String} {es : List (String × Key)} (hw : h.Acyclic w)
    (hk : h.key w = .struct name es) : ∃ b, w = .struct b := by
  cases w with
  | struct b => exact ⟨b, rfl⟩
  | array b => rw [hw.key_array] at hk; cases hk
  | object b => rw [hw.key_object] at hk; cases hk
  | tag tag name p => cases p <;> cases hk
  | _ => cases hk

lemma variant_of_key {tagName name : String} (hw : h.Acyclic w)
    (hk : h.key w = .tag tagName name (some k)) :
    ∃ tag p, w = .tag tag name (some p) ∧ tagName = tag.name ∧ k = h.key p := by
  cases w with
  | array b => rw [hw.key_array] at hk; cases hk
  | object b => rw [hw.key_object] at hk; cases hk
  | struct b => rw [hw.key_struct] at hk; cases hk
  | tag tag name p =>
      cases p with
      | none => cases hk
      | some p =>
          injection hk with htag hname hp
          injection hp with hp
          exact ⟨tag, p, by rw [hname], htag.symm, hp.symm⟩
  | _ => cases hk

/-- What has the key of a leaf is a leaf. -/
lemma container?_eq_none_of_key : ∀ {w v : Value}, h.Acyclic w → v.container? = none →
    h.key w = h.key v → w.container? = none
  | .array b, v, hw, hv, hk => by
      rw [hw.key_array] at hk
      cases v with
      | array a => cases hv
      | tag tag name p => cases p <;> cases hk
      | _ => cases hk
  | .object b, v, hw, hv, hk => by
      rw [hw.key_object] at hk
      cases v with
      | object a => cases hv
      | tag tag name p => cases p <;> cases hk
      | _ => cases hk
  | .struct b, v, hw, hv, hk => by
      rw [hw.key_struct] at hk
      cases v with
      | struct a => cases hv
      | tag tag name p => cases p <;> cases hk
      | _ => cases hk
  | .tag tag name (some q), v, hw, hv, hk => by
      cases v with
      | tag tag' name' p =>
          cases p with
          | none =>
              obtain ⟨-, -, hp⟩ := Key.tag.inj hk
              cases hp
          | some p =>
              obtain ⟨-, -, hp⟩ := Key.tag.inj hk
              exact container?_eq_none_of_key (w := q) (v := p) hw.payload hv (Option.some.inj hp)
      | array a => cases hv
      | object a => cases hv
      | struct a => cases hv
      | _ => cases hk
  | .tag _ _ Option.none, _, _, _, _ | .none, _, _, _, _ | .bool _, _, _, _, _
  | .number _, _, _, _, _ | .string _, _, _, _, _ | .pointer .., _, _, _, _
  | .closure _, _, _, _, _ | .native .., _, _, _, _ | .form .., _, _, _, _
  | .tagDecl .., _, _, _, _ | .structDecl _, _, _, _, _ | .namespaced _, _, _, _, _ => rfl

/-- Where all that is inside a value unfolds to the same tree as whatever has its key, the value
itself does. -/
lemma alike_of_key_eq : ∀ {v w : Value}, h.Acyclic v → h.Acyclic w → h.key v = h.key w →
    (∀ c, v.container? = some c → ∀ p ∈ h.inside c, ∀ q, h.Acyclic q → h.key p = h.key q →
      h.Alike p q) → h.Alike v w
  | .array a, w, hv, hw, hk, hin => by
      rw [hv.key_array] at hk
      obtain ⟨b, rfl⟩ := array_of_key hw hk.symm
      rw [hw.key_array] at hk
      obtain ⟨hsize, hitems⟩ := map_eq_map_iff_zip.mp (Key.array.inj hk)
      refine .array hsize ?_
      intro p hp
      obtain ⟨ha, hb⟩ := List.of_mem_zip hp
      exact hin _ rfl _ ha _ (hw.inside rfl hb) (hitems p hp)
  | .object a, w, hv, hw, hk, hin => by
      rw [hv.key_object] at hk
      obtain ⟨b, rfl⟩ := object_of_key hw hk.symm
      rw [hw.key_object] at hk
      let valueKey : Value × Value → Key := fun e => h.key e.2
      obtain ⟨hkeys, hvalues⟩ :=
        (map_snd_eq_iff_zip (f := valueKey) (g := valueKey)).mp (Key.object.inj hk)
      refine .object hkeys ?_
      intro p hp
      obtain ⟨ha, hb⟩ := List.of_mem_zip hp
      exact hin _ rfl _ (List.mem_map_of_mem ha) _ (hw.inside rfl (List.mem_map_of_mem hb))
        (hvalues p hp)
  | .struct a, w, hv, hw, hk, hin => by
      rw [hv.key_struct] at hk
      obtain ⟨b, rfl⟩ := struct_of_key hw hk.symm
      rw [hw.key_struct] at hk
      obtain ⟨hname, hk⟩ := Key.struct.inj hk
      obtain ⟨hnames, hvalues⟩ := map_snd_eq_iff_zip.mp hk
      refine .struct hname hnames ?_
      intro p hp
      obtain ⟨ha, hb⟩ := List.of_mem_zip hp
      exact hin _ rfl _ (List.mem_map_of_mem ha) _ (hw.inside rfl (List.mem_map_of_mem hb))
        (hvalues p hp)
  | .tag tag name (some p), w, hv, hw, hk, hin => by
      obtain ⟨tag', q, rfl, htag, hq⟩ := variant_of_key hw hk.symm
      exact .variant htag (alike_of_key_eq (v := p) hv.payload hw.payload hq hin)
  | .tag _ _ Option.none, _, _, hw, hk, _ | .none, _, _, hw, hk, _ | .bool _, _, _, hw, hk, _
  | .number _, _, _, hw, hk, _ | .string _, _, _, hw, hk, _ | .pointer .., _, _, hw, hk, _
  | .closure _, _, _, hw, hk, _ | .native .., _, _, hw, hk, _ | .form .., _, _, hw, hk, _
  | .tagDecl .., _, _, hw, hk, _ | .structDecl _, _, _, hw, hk, _
  | .namespaced _, _, _, hw, hk, _ => by
      have hflat := container?_eq_none_of_key hw rfl hk.symm
      rw [key_leaf rfl, key_leaf hflat] at hk
      exact .leaf rfl hflat hk

/-- **Acyclic values have the same key exactly when they unfold to the same tree.** -/
theorem Acyclic.key_eq_iff (hv : h.Acyclic v) (hw : h.Acyclic w) :
    h.key v = h.key w ↔ h.Alike v w := by
  constructor
  · refine hv.of_inside (motive := fun v => ∀ w, h.Acyclic w → h.key v = h.key w → h.Alike v w)
      ?_ w hw
    intro v hv hin w hw hk
    exact alike_of_key_eq hv hw hk hin
  · intro ha
    exact ha.key_eq hv hw

end Heap

/-! ## Sharing -/

/-- **Keys are finite and forget sharing.**  On every heap and for every value, the recursion that
builds keys comes to an end with one key, the key of the value.  Without its guard it comes to an
end exactly on the values in which no container is reached from itself, and there with the same key.
So two such values are equal exactly when they unfold to the same tree, however their parts are
shared. -/
theorem keys_forget_sharing (h : Heap) :
    (∀ v k, h.GuardedKey [] v k ↔ k = h.key v)
      ∧ (∀ v k, h.NaiveKey v k ↔ h.Acyclic v ∧ k = h.key v)
      ∧ ∀ v w, h.Acyclic v → h.Acyclic w → (h.same v w = true ↔ h.Alike v w) := by
  refine ⟨fun v k => Heap.guardedKey_iff, fun v k => Heap.naiveKey_iff, ?_⟩
  intro v w hv hw
  rw [Heap.same, beq_iff_eq]
  exact hv.key_eq_iff hw

/-- A pair that holds one array twice, and a pair of two arrays. -/
def sharedPairs : Heap where
  arrays := #[⟨#[.bool true], none⟩, ⟨#[.bool true], none⟩, ⟨#[.array 0, .array 0], none⟩,
    ⟨#[.array 0, .array 1], none⟩]

theorem keys_forget_sharing_pairs :
    sharedPairs.Acyclic (.array 2) ∧ sharedPairs.Acyclic (.array 3)
      ∧ sharedPairs.Alike (.array 2) (.array 3)
      ∧ sharedPairs.same (.array 2) (.array 3) = true := by
  obtain ⟨-, -, hsame⟩ := keys_forget_sharing sharedPairs
  have hitem : ∀ c, sharedPairs.inside c = [.bool true] → ∀ v, v.container? = some c →
      sharedPairs.Acyclic v := by
    intro c hc v hv
    refine Heap.acyclic_of_inside hv ?_
    intro w hw
    rw [hc, List.mem_singleton] at hw
    subst hw
    exact Heap.acyclic_of_flat rfl
  have hfirst := hitem (.array 0) rfl (.array 0) rfl
  have hsecond := hitem (.array 1) rfl (.array 1) rfl
  have hshared : sharedPairs.Acyclic (.array 2) := by
    refine Heap.acyclic_of_inside rfl ?_
    intro w hw
    rcases List.mem_pair.mp hw with rfl | rfl
    · exact hfirst
    · exact hfirst
  have hapart : sharedPairs.Acyclic (.array 3) := by
    refine Heap.acyclic_of_inside rfl ?_
    intro w hw
    rcases List.mem_pair.mp hw with rfl | rfl
    · exact hfirst
    · exact hsecond
  have hequal : sharedPairs.same (.array 2) (.array 3) = true := by decide
  exact ⟨hshared, hapart, (hsame _ _ hshared hapart).mp hequal, hequal⟩

end StampScript
