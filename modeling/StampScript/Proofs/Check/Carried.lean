import Mathlib.Data.List.Forall2
import StampScript.Proofs.Check.Meets

/-!
# Types that carry over

What meets a type in one heap and one scope meets it in others, when values stand for values with
the same contents, and the names that are looked up on the way stand for the same shapes.  The names
that declarations were given do not count, neither in shapes nor in types.

* `Heap.Involves`, `Heap.Agrees` — the types that a check can lead to, and scopes that agree on the
  names in them.
* `Heap.Stands` — one level of a value standing for another.
* **`Heap.Meets.carry`** — what stands for a value meets the types that the value meets.
-/

namespace StampScript

open Heap

/-! ## Lists that correspond -/

section

variable {α α' β β' : Type} {R : α → α' → Prop} {S : β → β' → Prop}

lemma exists_of_mem_right {as : List α} {bs : List α'} (h : List.Forall₂ R as bs) {b : α'}
    (hb : b ∈ bs) : ∃ a ∈ as, R a b := by
  induction h with
  | nil => cases hb
  | cons hab _ ih =>
      rcases List.mem_cons.mp hb with rfl | hb
      · exact ⟨_, List.mem_cons_self, hab⟩
      · obtain ⟨a, ha, hr⟩ := ih hb
        exact ⟨a, List.mem_cons_of_mem _ ha, hr⟩

lemma forall₂_pairs {as : List α} {as' : List α'} (ha : List.Forall₂ R as as') :
    ∀ {bs : List β} {bs' : List β'}, List.Forall₂ S bs bs' →
      List.Forall₂ (fun p p' => R p.1 p'.1 ∧ S p.2 p'.2) (as.zip bs) (as'.zip bs') := by
  induction ha with
  | nil => exact fun _ => .nil
  | cons hr _ ih =>
      intro bs bs' hb
      cases hb with
      | nil => exact .nil
      | cons hs hb => exact .cons ⟨hr, hs⟩ (ih hb)

end

/-! ## Types and shapes up to names -/

/-- The types of lists that are equal without names, one by one. -/
lemma Ty.forall₂_of_unnamedAll {P : Ty → Prop} : ∀ {ts ts' : List Ty},
    Ty.unnamedAll ts' = Ty.unnamedAll ts → (∀ t ∈ ts, P t) →
      List.Forall₂ (fun t t' => P t ∧ t'.unnamed = t.unnamed) ts ts'
  | [], [], _, _ => .nil
  | [], _ :: _, h, _ => by simp [Ty.unnamedAll] at h
  | _ :: _, [], h, _ => by simp [Ty.unnamedAll] at h
  | t :: ts, t' :: ts', h, hP => by
      simp only [Ty.unnamedAll, List.cons.injEq] at h
      obtain ⟨ht, hts⟩ := List.forall_mem_cons.mp hP
      exact .cons ⟨ht, h.1⟩ (Ty.forall₂_of_unnamedAll h.2 hts)

lemma Param.length_unnamedAll : ∀ ps : List Param, (Param.unnamedAll ps).length = ps.length
  | [] => rfl
  | _ :: ps => congrArg (· + 1) (Param.length_unnamedAll ps)

lemma Ty.get?_unnamedFields (name : String) : ∀ fs : Dictionary Ty,
    Dictionary.get? (Ty.unnamedFields fs) name = (fs.get? name).map Ty.unnamed
  | [] => rfl
  | (k, t) :: fs => by
      have ih := Ty.get?_unnamedFields name fs
      simp only [Dictionary.get?] at ih
      simp only [Dictionary.get?, Ty.unnamedFields, Ordered.find?]
      split
      · rfl
      · rfl
      · exact ih

namespace Heap

/-! ## Names on the way -/

/-- The types that a check against a type can lead to, when names are looked up in the scope. -/
inductive Involves (h : Heap) (s : Scope) (t : Ty) : Ty → Prop
  | self : Involves h s t t
  | piece {u w : Ty} : Involves h s t u → w ∈ u.pieces → Involves h s t w
  | named {name : String} {shape : Shape} {w : Ty} : Involves h s t (.entity name) →
      h.shapeNamed? s name = some shape → w ∈ shape.pieces → Involves h s t w

/-- The names that a check against the type can look up stand for the same shapes in two scopes, up
to the names that the declarations were given. -/
def Agrees (h : Heap) (s : Scope) (t : Ty) (h' : Heap) (s' : Scope) : Prop :=
  ∀ name, h.Involves s t (.entity name) →
    (h'.shapeNamed? s' name).map Shape.unnamed = (h.shapeNamed? s name).map Shape.unnamed

variable {h h' : Heap} {s s' : Scope} {t u u' : Ty}

/-- The type of a payload is on the way. -/
lemma Involves.payload {expected : TagShape} {variant : String} {w : Ty} (hu : h.Involves s t u)
    (hshape : h.shapeMeant? s u = some (.tag expected))
    (hget : Dictionary.get? expected.payload variant = some w) : h.Involves s t w := by
  have hmem : w ∈ (Shape.tag expected).pieces := by
    cases expected
    exact Ty.mem_piecesFields (Dictionary.mem_of_get? hget)
  cases u with
  | entity name => exact .named hu hshape hmem
  | declared shape =>
      cases hshape
      exact .piece hu (List.mem_cons_of_mem _ hmem)
  | _ => cases hshape

/-- Types that are equal without names are about the same shape, where scopes agree. -/
lemma Agrees.shapeMeant? {shape : Shape} (ha : h.Agrees s t h' s') (hu : h.Involves s t u)
    (he : u'.unnamed = u.unnamed) (hshape : h.shapeMeant? s u = some shape) :
    ∃ shape', h'.shapeMeant? s' u' = some shape' ∧ shape'.unnamed = shape.unnamed := by
  cases u with
  | entity name =>
      cases u' with
      | entity name' =>
          simp only [Ty.unnamed, Ty.entity.injEq] at he
          subst he
          have hnames := ha name' hu
          rw [show h.shapeNamed? s name' = some shape from hshape] at hnames
          exact Option.map_eq_some_iff.mp hnames
      | _ => simp [Ty.unnamed] at he
  | declared own =>
      cases hshape
      cases u' with
      | declared own' =>
          simp only [Ty.unnamed, Ty.declared.injEq] at he
          exact ⟨own', rfl, he⟩
      | _ => simp [Ty.unnamed] at he
  | _ => cases hshape

/-- A name that stands for a struct leads to no other names. -/
lemma Involves.eq_of_struct {name : String} {expected : StructShape}
    (hname : h.shapeNamed? s name = some (.struct expected)) (hu : h.Involves s (.entity name) u) :
    u = .entity name := by
  induction hu with
  | self => rfl
  | piece _ hw ih =>
      rw [ih] at hw
      exact List.mem_singleton.mp hw
  | named _ hshape hw ih =>
      cases ih
      rw [hname] at hshape
      cases hshape
      cases hw

/-- Scopes agree on a struct if its name stands for the same shape. -/
lemma Agrees.of_struct {name : String} {expected expected' : StructShape}
    (hname : h.shapeNamed? s name = some (.struct expected))
    (hname' : h'.shapeNamed? s' name = some (.struct expected')) (hsame : expected'.same expected) :
    h.Agrees s (.entity name) h' s' := by
  intro other hother
  cases hother.eq_of_struct hname
  rw [hname, hname']
  exact congrArg (some <| Shape.struct ·) ((StructShape.same_iff _ _).mp hsame)

end Heap

/-! ## Values that stand for values -/

/-- A value that a check does not look into. -/
def Value.isOpaque : Value → Bool
  | .array _ | .object _ | .pointer .. | .tag .. | .struct _ => false
  | _ => true

namespace Heap

/-- A value stands for another one, as far as one level of a check goes: what they hold corresponds,
struct instances have the same shape, and pointers are the same and lead to a slot if they did. -/
inductive Stands (C : Value → Value → Prop) (arena arena' : Array Value)
    (trusted trusted' : Nat → Option Ty) (h h' : Heap) : Value → Value → Prop
  | array {ref ref' : Nat} :
      List.Forall₂ C (h.array ref).items.toList (h'.array ref').items.toList →
      (∀ u, trusted ref = some u → trusted' ref' = some u) →
      Stands C arena arena' trusted trusted' h h' (.array ref) (.array ref')
  | object {ref ref' : Nat} :
      List.Forall₂ C ((h.object ref).entries.map (·.2.1)) ((h'.object ref').entries.map (·.2.1)) →
      List.Forall₂ C ((h.object ref).entries.map (·.2.2)) ((h'.object ref').entries.map (·.2.2)) →
      Stands C arena arena' trusted trusted' h h' (.object ref) (.object ref')
  | struct {ref ref' : Nat} : (h'.parent ref').shape = (h.parent ref).shape →
      Stands C arena arena' trusted trusted' h h' (.struct ref) (.struct ref')
  | pointer {index stamp : Nat} : (index < arena.size → index < arena'.size) →
      (∀ u, h.pointerStamp stamp = some u → h'.pointerStamp stamp = some u) →
      Stands C arena arena' trusted trusted' h h' (.pointer index stamp) (.pointer index stamp)
  | plainVariant {parent : TagShape} {variant : String} :
      Stands C arena arena' trusted trusted' h h' (.tag parent variant none) (.tag parent variant none)
  | variant {parent : TagShape} {variant : String} {p p' : Value} : C p p' →
      Stands C arena arena' trusted trusted' h h' (.tag parent variant (some p))
        (.tag parent variant (some p'))
  | alone {v : Value} : v.isOpaque → Stands C arena arena' trusted trusted' h h' v v

variable {arena arena' : Array Value} {s s' : Scope} {trusted trusted' : Nat → Option Ty}
  {h h' : Heap} {C : Value → Value → Prop} {v : Value} {t u : Ty}

lemma isStamp_of_unnamed_eq {stamp stamp' : Option Ty} {u' : Ty}
    (hstamp : ∀ w, stamp = some w → stamp' = some w) (hu : isStamp stamp u)
    (he : u'.unnamed = u.unnamed) : isStamp stamp' u' := by
  cases hw : stamp with
  | none => rw [hw] at hu; cases hu
  | some w =>
      rw [hw] at hu
      rw [hstamp w hw]
      exact (Ty.same_iff w u').mpr (((Ty.same_iff w u).mp hu).trans he.symm)

/-- **What stands for a value meets the types that the value meets**, and all types that are equal to
them without names, in a scope that agrees on the names on the way. -/
theorem Meets.carry (hC : ∀ w w', C w w' → Stands C arena arena' trusted trusted' h h' w w')
    (ha : h.Agrees s t h' s') (hm : Meets arena s trusted h v u) :
    ∀ {v' u'}, C v v' → h.Involves s t u → u'.unnamed = u.unnamed →
      Meets arena' s' trusted' h' v' u' := by
  induction hm with
  | any v =>
      intro v' u' hv hu he
      cases u' with
      | any => exact .any v'
      | _ => simp [Ty.unnamed] at he
  | number hp =>
      intro v' u' hv hu he
      cases hC _ _ hv
      cases u' with
      | number pin =>
          simp only [Ty.unnamed, Ty.number.injEq] at he
          exact .number (he ▸ hp)
      | _ => simp [Ty.unnamed] at he
  | string hp =>
      intro v' u' hv hu he
      cases hC _ _ hv
      cases u' with
      | string pin =>
          simp only [Ty.unnamed, Ty.string.injEq] at he
          exact .string (he ▸ hp)
      | _ => simp [Ty.unnamed] at he
  | bool hp =>
      intro v' u' hv hu he
      cases hC _ _ hv
      cases u' with
      | bool pin =>
          simp only [Ty.unnamed, Ty.bool.injEq] at he
          exact .bool (he ▸ hp)
      | _ => simp [Ty.unnamed] at he
  | none =>
      intro v' u' hv hu he
      cases hC _ _ hv
      cases u' with
      | none => exact .none
      | _ => simp [Ty.unnamed] at he
  | left hm ih =>
      intro v' u' hv hu he
      cases u' with
      | union a b =>
          simp only [Ty.unnamed, Ty.union.injEq] at he
          exact .left (ih hv (.piece hu (by simp [Ty.pieces])) he.1)
      | _ => simp [Ty.unnamed] at he
  | right hm ih =>
      intro v' u' hv hu he
      cases u' with
      | union a b =>
          simp only [Ty.unnamed, Ty.union.injEq] at he
          exact .right (ih hv (.piece hu (by simp [Ty.pieces])) he.2)
      | _ => simp [Ty.unnamed] at he
  | trustedArray hstamp =>
      intro v' u' hv hu he
      cases hC _ _ hv with
      | array hitems htrusted =>
          have hstamp' := isStamp_of_unnamed_eq htrusted hstamp he
          cases u' with
          | array element => exact .trustedArray hstamp'
          | _ => simp [Ty.unnamed] at he
      | alone hno => cases hno
  | trustedTuple hstamp =>
      intro v' u' hv hu he
      cases hC _ _ hv with
      | array hitems htrusted =>
          have hstamp' := isStamp_of_unnamed_eq htrusted hstamp he
          cases u' with
          | tuple members => exact .trustedTuple hstamp'
          | _ => simp [Ty.unnamed] at he
      | alone hno => cases hno
  | array hm ih =>
      intro v' u' hv hu he
      cases hC _ _ hv with
      | array hitems htrusted =>
          cases u' with
          | array element =>
              simp only [Ty.unnamed, Ty.array.injEq] at he
              refine .array fun w' hw' => ?_
              obtain ⟨w, hw, hww⟩ := exists_of_mem_right hitems hw'
              exact ih w hw hww (.piece hu (by simp [Ty.pieces])) he
          | _ => simp [Ty.unnamed] at he
      | alone hno => cases hno
  | @tuple ref members hsize hm ih =>
      intro v' u' hv hu he
      cases hC _ _ hv with
      | array hitems htrusted =>
          cases u' with
          | tuple members' =>
              simp only [Ty.unnamed, Ty.tuple.injEq] at he
              have hmembers := Ty.forall₂_of_unnamedAll (P := h.Involves s t) he fun w hw =>
                .piece hu (List.mem_cons_of_mem _ (Ty.mem_piecesAll hw))
              have hlength := hitems.length_eq
              simp only [Array.length_toList] at hlength
              refine .tuple (by rw [← hlength, hsize, hmembers.length_eq]) fun p' hp' => ?_
              obtain ⟨p, hp, hpp, hi, hn⟩ := exists_of_mem_right (forall₂_pairs hitems hmembers) hp'
              exact ih p hp hpp hi hn
          | _ => simp [Ty.unnamed] at he
      | alone hno => cases hno
  | record hkeys hvalues ihkeys ihvalues =>
      intro v' u' hv hu he
      cases hC _ _ hv with
      | object hks hws =>
          cases u' with
          | record keyType valueType =>
              simp only [Ty.unnamed, Ty.record.injEq] at he
              refine .record (fun e' he' => ?_) fun e' he' => ?_
              · obtain ⟨k, hmem, hk⟩ := exists_of_mem_right hks (List.mem_map_of_mem he')
                obtain ⟨e, hentry, rfl⟩ := List.mem_map.mp hmem
                exact ihkeys e hentry hk (.piece hu (by simp [Ty.pieces])) he.1
              · obtain ⟨w, hmem, hw⟩ := exists_of_mem_right hws (List.mem_map_of_mem he')
                obtain ⟨e, hentry, rfl⟩ := List.mem_map.mp hmem
                exact ihvalues e hentry hw (.piece hu (by simp [Ty.pieces])) he.2
          | _ => simp [Ty.unnamed] at he
      | alone hno => cases hno
  | pointer hindex hstamp hsame =>
      intro v' u' hv hu he
      cases hC _ _ hv with
      | pointer hindex' hpin =>
          cases u' with
          | pointer pointee =>
              simp only [Ty.unnamed, Ty.pointer.injEq] at he
              refine .pointer (hindex' hindex) (hpin _ hstamp) ?_
              exact (Ty.same_iff _ _).mpr (((Ty.same_iff _ _).mp hsame).trans he.symm)
          | _ => simp [Ty.unnamed] at he
      | alone hno => cases hno
  | @function c expected hresult hlength =>
      intro v' u' hv hu he
      cases hC _ _ hv
      cases u' with
      | function expected' =>
          obtain ⟨params, result⟩ := expected
          obtain ⟨params', result'⟩ := expected'
          simp only [Ty.unnamed, Signature.unnamed, Ty.function.injEq, Signature.mk.injEq] at he
          refine .function ?_ ?_
          · exact (Ty.same_iff _ _).mpr (((Ty.same_iff _ _).mp hresult).trans he.2.symm)
          · have hl := congrArg List.length he.1
            simp only [Param.length_unnamedAll] at hl
            exact hlength.trans hl.symm
      | _ => simp [Ty.unnamed] at he
  | struct hshape hsame =>
      intro v' u' hv hu he
      cases hC _ _ hv with
      | struct hparent =>
          obtain ⟨shape', hshape', hn⟩ := ha.shapeMeant? hu he hshape
          cases shape' with
          | struct expected' =>
              simp only [Shape.unnamed, Shape.struct.injEq] at hn
              refine .struct hshape' ?_
              rw [hparent]
              exact (StructShape.same_iff _ _).mpr
                (((StructShape.same_iff _ _).mp hsame).trans hn.symm)
          | tag => simp [Shape.unnamed] at hn
      | alone hno => cases hno
  | @plainVariant parent expected variant t hshape hsame hplain =>
      intro v' u' hv hu he
      cases hC _ _ hv with
      | plainVariant =>
          obtain ⟨shape', hshape', hn⟩ := ha.shapeMeant? hu he hshape
          cases shape' with
          | tag expected' =>
              simp only [Shape.unnamed, Shape.tag.injEq] at hn
              refine .plainVariant hshape' ?_ ?_
              · exact (TagShape.same_iff _ _).mpr
                  (((TagShape.same_iff _ _).mp hsame).trans hn.symm)
              · obtain ⟨_, _, _⟩ := expected
                obtain ⟨_, _, _⟩ := expected'
                simp only [TagShape.unnamed, TagShape.mk.injEq, true_and] at hn
                rw [hn.1]
                exact hplain
          | struct => simp [Shape.unnamed] at hn
      | alone hno => cases hno
  | @variant parent expected variant p t w hshape hsame hget hm ih =>
      intro v' u' hv hu he
      cases hC _ _ hv with
      | variant hp =>
          obtain ⟨shape', hshape', hn⟩ := ha.shapeMeant? hu he hshape
          cases shape' with
          | tag expected' =>
              simp only [Shape.unnamed, Shape.tag.injEq] at hn
              have hw := hu.payload hshape hget
              have hsame' := (TagShape.same_iff _ _).mpr
                (((TagShape.same_iff _ _).mp hsame).trans hn.symm)
              have hget' : (Dictionary.get? expected'.payload variant).map Ty.unnamed
                  = some w.unnamed := by
                obtain ⟨_, _, _⟩ := expected
                obtain ⟨_, _, _⟩ := expected'
                simp only [TagShape.unnamed, TagShape.mk.injEq, true_and] at hn
                rw [← Ty.get?_unnamedFields, hn.2, Ty.get?_unnamedFields, hget]
                rfl
              obtain ⟨w', hw', hnames⟩ := Option.map_eq_some_iff.mp hget'
              exact .variant hshape' hsame' hw' (ih hp hw hnames)
          | struct => simp [Shape.unnamed] at hn
      | alone hno => cases hno

/-! ## Heaps with more stamps -/

lemma Stands.of_marked (hm : h.Marked Set.univ h') (arena : Array Value) (trusted : Nat → Option Ty)
    (v : Value) : Stands Eq arena arena trusted trusted h h' v v := by
  cases v with
  | array ref =>
      refine .array ?_ fun _ hu => hu
      rw [hm.items_eq]
      exact List.forall₂_same.mpr fun _ _ => rfl
  | object ref =>
      refine .object ?_ ?_
      · rw [hm.entries_eq]
        exact List.forall₂_same.mpr fun _ _ => rfl
      · rw [hm.entries_eq]
        exact List.forall₂_same.mpr fun _ _ => rfl
  | struct ref => exact .struct (by rw [hm.parent_eq])
  | pointer index stamp => exact .pointer (fun hi => hi) fun _ hu => hm.pointers trivial hu
  | tag parent variant payload =>
      cases payload with
      | none => exact .plainVariant
      | some p => exact .variant rfl
  | _ => exact .alone rfl

/-- What a value meets it meets with more stamps as well, and all types that are the same. -/
lemma Meets.marked (hv : Meets arena s trusted h v t) (hm : h.Marked Set.univ h')
    (he : u.unnamed = t.unnamed) :
    Meets arena s trusted h' v u := by
  refine hv.carry (fun w w' hw => ?_) (fun name _ => ?_) rfl .self he
  · subst hw
    exact .of_marked hm arena trusted w
  · exact congrArg _ (hm.shapeMeant?_eq s (.entity name))

end Heap

end StampScript
