import StampScript.Proofs.Check.Questions

/-!
# What a check can come to

A check of a value against a type goes on to the payloads of the value and the pieces of the
type, unless it follows a reference or looks up a name.

* `Ty.pieces` — the types inside a type, as far as a check goes; pieces of pieces are pieces.
* `Value.layers` — a value and the payloads inside it.
-/

namespace StampScript

/-! ## Types inside a type -/

mutual

/-- The types that a check against a type can come to without looking up a name. -/
def Ty.pieces : Ty → List Ty
  | .union a b => .union a b :: (a.pieces ++ b.pieces)
  | .array a => .array a :: a.pieces
  | .tuple as => .tuple as :: Ty.piecesAll as
  | .pointer a => .pointer a :: a.pieces
  | .record a b => .record a b :: (a.pieces ++ b.pieces)
  | .declared shape => .declared shape :: shape.pieces
  | t => [t]
termination_by structural t => t

/-- The pieces of several types. -/
def Ty.piecesAll : List Ty → List Ty
  | [] => []
  | a :: as => a.pieces ++ Ty.piecesAll as
termination_by structural ts => ts

/-- The pieces of the payload types of a shape. -/
def Shape.pieces : Shape → List Ty
  | .struct _ => []
  | .tag shape => shape.pieces
termination_by structural s => s

/-- The pieces of the payload types of a tag. -/
def TagShape.pieces : TagShape → List Ty
  | .mk _ _ payload => Ty.piecesFields payload
termination_by structural s => s

/-- The pieces of several named types. -/
def Ty.piecesFields : List (String × Ty) → List Ty
  | [] => []
  | (_, a) :: fields => a.pieces ++ Ty.piecesFields fields
termination_by structural fs => fs

end

@[simp] lemma Ty.mem_pieces_self (t : Ty) : t ∈ t.pieces := by
  cases t <;> simp [Ty.pieces]

/-- A list that holds the pieces of each of its types. -/
def Ty.ClosedUnder (ts : List Ty) (u : Ty) : Prop := u ∈ ts → u.pieces ⊆ ts

lemma Ty.ClosedUnder.append {as bs : List Ty} {u : Ty} (ha : Ty.ClosedUnder as u)
    (hb : Ty.ClosedUnder bs u) : Ty.ClosedUnder (as ++ bs) u := by
  intro hu
  rcases List.mem_append.mp hu with hu | hu
  · exact List.subset_append_of_subset_left _ (ha hu)
  · exact List.subset_append_of_subset_right _ (hb hu)

lemma Ty.ClosedUnder.cons {t u : Ty} {ts : List Ty} (ht : t.pieces = t :: ts)
    (hts : Ty.ClosedUnder ts u) : Ty.ClosedUnder t.pieces u := by
  intro hu
  rw [ht, List.mem_cons] at hu
  rcases hu with rfl | hu
  · exact List.Subset.refl _
  · rw [ht]
    exact List.subset_cons_of_subset t (hts hu)

lemma Ty.ClosedUnder.nil (u : Ty) : Ty.ClosedUnder [] u := fun hu => by cases hu

mutual

/-- A piece of a piece is a piece. -/
lemma Ty.pieces_closed : ∀ (t u : Ty), Ty.ClosedUnder t.pieces u
  | .union a b, u => .cons rfl (.append (Ty.pieces_closed a u) (Ty.pieces_closed b u))
  | .array a, u => .cons rfl (Ty.pieces_closed a u)
  | .tuple as, u => .cons rfl (Ty.piecesAll_closed as u)
  | .pointer a, u => .cons rfl (Ty.pieces_closed a u)
  | .record a b, u => .cons rfl (.append (Ty.pieces_closed a u) (Ty.pieces_closed b u))
  | .declared shape, u => .cons rfl (Shape.pieces_closed shape u)
  | .any, u | .number _, u | .string _, u | .bool _, u | .none, u | .entity _, u
  | .function _, u => .cons rfl (.nil u)

lemma Ty.piecesAll_closed : ∀ (ts : List Ty) (u : Ty), Ty.ClosedUnder (Ty.piecesAll ts) u
  | [], u => .nil u
  | a :: as, u => .append (Ty.pieces_closed a u) (Ty.piecesAll_closed as u)

lemma Shape.pieces_closed : ∀ (shape : Shape) (u : Ty), Ty.ClosedUnder shape.pieces u
  | .struct _, u => .nil u
  | .tag shape, u => TagShape.pieces_closed shape u

lemma TagShape.pieces_closed : ∀ (shape : TagShape) (u : Ty), Ty.ClosedUnder shape.pieces u
  | .mk _ _ payload, u => Ty.piecesFields_closed payload u

lemma Ty.piecesFields_closed : ∀ (fields : List (String × Ty)) (u : Ty),
    Ty.ClosedUnder (Ty.piecesFields fields) u
  | [], u => .nil u
  | (_, a) :: fields, u => .append (Ty.pieces_closed a u) (Ty.piecesFields_closed fields u)

end

/-- The members of a tuple are pieces of it. -/
lemma Ty.mem_piecesAll {ts : List Ty} {t : Ty} (ht : t ∈ ts) : t ∈ Ty.piecesAll ts := by
  induction ts with
  | nil => cases ht
  | cons a as ih =>
      rcases List.mem_cons.mp ht with rfl | ht
      · simp [Ty.piecesAll]
      · simp [Ty.piecesAll, ih ht]

/-- The types of payloads are pieces of the tag. -/
lemma Ty.mem_piecesFields {fields : List (String × Ty)} {f : String × Ty} (hf : f ∈ fields) :
    f.2 ∈ Ty.piecesFields fields := by
  induction fields with
  | nil => cases hf
  | cons a as ih =>
      rcases List.mem_cons.mp hf with rfl | hf
      · simp [Ty.piecesFields]
      · simp [Ty.piecesFields, ih hf]

/-! ## Values inside a value -/

/-- A value and the payloads inside it. -/
def Value.layers : Value → List Value
  | .tag parent variant (some p) => .tag parent variant (some p) :: p.layers
  | v => [v]
termination_by structural v => v

@[simp] lemma Value.mem_layers_self (v : Value) : v ∈ v.layers := by
  unfold Value.layers
  split <;> simp

/-- A payload of a layer is a layer. -/
lemma Value.payload_mem_layers : ∀ (v : Value) {parent : TagShape} {variant : String} {p : Value},
    Value.tag parent variant (some p) ∈ v.layers → p ∈ v.layers
  | .tag _ _ (some q), parent, variant, p, h => by
      simp only [Value.layers, List.mem_cons] at h ⊢
      rcases h with h | h
      · injection h with _ _ hp
        injection hp with hp
        subst hp
        exact Or.inr p.mem_layers_self
      · exact Or.inr (q.payload_mem_layers h)
  | .tag _ _ Option.none, _, _, _, h => by simp [Value.layers] at h
  | .number _, _, _, _, h | .string _, _, _, _, h | .bool _, _, _, _, h | .none, _, _, _, h
  | .array _, _, _, _, h | .object _, _, _, _, h | .closure _, _, _, _, h
  | .native _ _, _, _, _, h | .form _ _, _, _, _, h | .pointer _ _, _, _, _, h
  | .tagDecl _ _, _, _, _, h | .structDecl _, _, _, _, h | .struct _, _, _, _, h
  | .namespaced _, _, _, _, h => by simp [Value.layers] at h

end StampScript
