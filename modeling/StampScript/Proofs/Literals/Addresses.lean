import StampScript.Proofs.Literals.Traces

/-!
# Addresses of literals

A literal, and an array or record that is made of literals, evaluates to new containers and to a
value whose key can be told from the text.  Taking its address gives the slot that is remembered for
this key, so reading through the address gives an equal value, as long as the literal is in place.

* `Expr.literalKey?` — the key of what a literal evaluates to.
* `Eval.Gives`, `Eval.gives_expr` — the evaluation of a literal.
* `Eval.expr_roundTrip` — reading through the address of a literal that is in place.
* **`literals_denote`** — literals are in place in all that a host comes to, up to writes in place.
* `spoiled_literal` — a program that writes into an array in a literal's slot.
-/

namespace StampScript

open Eval Heap

/-! ## Literals -/

/-- The key of a literal's value. -/
def Literal.key : Literal → Key
  | .number x => .number (Number.rank x)
  | .string s => .string s
  | .bool b => .bool b
  | .none => .none

lemma Heap.key_ofLiteral (h : Heap) (l : Literal) : h.key (.ofLiteral l) = l.key := by
  cases l <;> rfl

lemma Literal.isScalar_key (l : Literal) : l.key.IsScalar := by cases l <;> trivial

/-- The key of an entry of a record, given the key of its expression.  A bare name stands for its
text. -/
def Expr.entryKey? : Expr → Option Key → Option Key
  | .var name _, _ => some (.string name)
  | _, key? => key?

mutual

/-- The key of the value of a literal, or of an array or record that is made of literals. -/
def Expr.literalKey? : Expr → Option Key
  | .literal l _ => some l.key
  | .array elements _ => (Expr.literalKeys? elements).map .array
  | .record none entries _ => (Expr.literalEntries? entries []).map .object
  | _ => none
termination_by structural e => e

/-- The keys of the values of literals. -/
def Expr.literalKeys? : List Expr → Option (List Key)
  | [] => some []
  | e :: es => do return (← e.literalKey?) :: (← Expr.literalKeys? es)
termination_by structural es => es

/-- The keys of the entries of a record, after those that are done. -/
def Expr.literalEntries? : List (Expr × Expr) → List (Key × Key) → Option (List (Key × Key))
  | [], done => some done
  | (k, v) :: rest, done =>
    (k.entryKey? k.literalKey?).bind fun key => v.literalKey?.bind fun value =>
      Expr.literalEntries? rest (Ordered.insert Key.compare key value done)
termination_by structural es => es

end

/-- The address of a literal is that of a slot which equal literals share. -/
lemma Expr.isLiteral_of_literalKey? {e : Expr} {k : Key} (hk : e.literalKey? = some k) :
    isLiteral e = true := by
  cases e with
  | literal l line => rfl
  | array elements line => rfl
  | record name entries line =>
      cases name with
      | none => rfl
      | some name => cases hk
  | _ => cases hk

namespace Eval

variable {host : Host} {c : Context} {scope : Scope}

/-- The evaluation leaves all containers as they are, and gives an intact value with a key. -/
def Gives (c : Context) (s : State) (x : Eval Value) (k : Key) : Prop :=
  ∃ v h, x c s = .success v (s.withHeap h) ∧ s.heap.Extends h ∧ h.Intact v ∧ h.key v = k

lemma gives_literal (s : State) (l : Literal) : Gives c s (pure (.ofLiteral l)) l.key := by
  refine ⟨.ofLiteral l, s.heap, rfl, .refl _, ?_, s.heap.key_ofLiteral l⟩
  exact intact_of_container_eq_none (by cases l <;> rfl)

/-- Keys of entries that stay what they are in a heap that extends another. -/
lemma map_key_extends {h h' : Heap} {entries : List (Key × Value × Value)} (he : h.Extends h')
    (hi : ∀ e ∈ entries, h.Intact e.2.2) :
    entries.map (fun e => (e.1, h'.key e.2.2)) = entries.map (fun e => (e.1, h.key e.2.2)) :=
  List.map_congr_left fun e hmem => by rw [he.key_eq (hi e hmem)]

variable (host c scope)

/-- The entries of a record are evaluated to ones with keys that can be told from the text, behind
those that are done. -/
def GivesEntries (entries : List (Expr × Expr)) : Prop :=
  ∀ {done : List (Key × Value × Value)} {ks : List (Key × Key)} (s : State),
    Expr.literalEntries? entries (done.map (fun e => (e.1, s.heap.key e.2.2))) = some ks →
    (∀ e ∈ done, s.heap.Intact e.2.2) →
    ∃ es h, recordEntries host entries scope done c s = .success es (s.withHeap h)
      ∧ s.heap.Extends h ∧ (∀ e ∈ es, h.Intact e.2.2)
      ∧ es.map (fun e => (e.1, h.key e.2.2)) = ks

variable {host c scope}

lemma givesEntries_cons {k v : Expr} {rest : List (Expr × Expr)}
    (hgk : ∀ {key : Key}, k.literalKey? = some key → ∀ s, Gives c s (expr host k scope) key)
    (hgv : ∀ {key : Key}, v.literalKey? = some key → ∀ s, Gives c s (expr host v scope) key)
    (hgrest : GivesEntries host c scope rest) : GivesEntries host c scope ((k, v) :: rest) := by
  intro done ks s hk hdone
  simp only [Expr.literalEntries?, Option.bind_eq_some_iff] at hk
  obtain ⟨key, hkey, value, hvalue, hks⟩ := hk
  -- the rest of the record, once the key of its first entry is there
  have hrest : ∀ kv h₁, s.heap.Extends h₁ → h₁.Intact kv → h₁.key kv = key → ∃ es h, (do
      let w ← expr host v scope
      recordEntries host rest scope ((← heap).insertEntry kv w done)) c (s.withHeap h₁)
        = .success es (s.withHeap h) ∧ s.heap.Extends h ∧ (∀ e ∈ es, h.Intact e.2.2)
          ∧ es.map (fun e => (e.1, h.key e.2.2)) = ks := by
    intro kv h₁ hext₁ hi₁ hkey₁
    obtain ⟨w, h₂, hw, hext₂, hi₂, hkey₂⟩ := hgv hvalue (s.withHeap h₁)
    have hext := hext₁.trans hext₂
    have hkv : h₂.key kv = key := (Extends.key_eq hext₂ hi₁).trans hkey₁
    have hdone₂ : (h₂.insertEntry kv w done).map (fun e => (e.1, h₂.key e.2.2))
        = Ordered.insert Key.compare key value (done.map (fun e => (e.1, s.heap.key e.2.2))) := by
      have hmap := @Ordered.map_insert Key (Value × Value) Key.compare Key
        (fun e => h₂.key e.2) (h₂.key kv) (kv, w) done
      rw [insertEntry, hmap, hkv, hkey₂, map_key_extends hext hdone]
    have hintact : ∀ e ∈ h₂.insertEntry kv w done, h₂.Intact e.2.2 := by
      intro e he
      rcases Ordered.mem_insert he with he | ⟨he, -⟩
      · exact hext.intact (hdone e he)
      · rw [he]
        exact hi₂
    obtain ⟨es, h₃, hes, hext₃, hi₃, hkeys₃⟩ := hgrest (s.withHeap h₂) (hdone₂ ▸ hks) hintact
    refine ⟨es, h₃, ?_, hext.trans hext₃, hi₃, hkeys₃⟩
    rw [bind_of_success hw]
    exact hes
  rw [recordEntries.eq_def]
  dsimp only
  split
  · next name line =>
    cases hkey
    exact hrest (.string name) s.heap (.refl _) (intact_of_container_eq_none rfl) rfl
  · next hno =>
    have hkey : k.literalKey? = some key := by
      rwa [Expr.entryKey?] at hkey
      exact hno
    obtain ⟨kv, h₁, hk, hext₁, hi₁, hkey₁⟩ := hgk hkey s
    rw [bind_of_success hk]
    exact hrest kv h₁ hext₁ hi₁ hkey₁

variable (host c scope)

mutual

/-- **A literal evaluates to a value with its key**, in any state. -/
lemma gives_expr : ∀ (e : Expr) {k : Key}, e.literalKey? = some k → ∀ s : State,
    Gives c s (expr host e scope) k
  | .literal l _, k, hk, s => by
      rw [Expr.literalKey?] at hk
      cases hk
      exact gives_literal s l
  | .array elements _, k, hk, s => by
      rw [Expr.literalKey?] at hk
      obtain ⟨ks, hks, rfl⟩ := Option.map_eq_some_iff.mp hk
      obtain ⟨vs, h, he, hext, hi, hkeys⟩ := gives_exprs elements hks s
      have hi : ∀ v ∈ vs.toArray, h.Intact v := fun v hv => hi v (List.mem_toArray.mp hv)
      refine ⟨(h.newArray vs.toArray).1, (h.newArray vs.toArray).2, ?_,
        hext.trans (h.extends_newArray _), intact_newArray hi, ?_⟩
      · rw [expr, bind_of_success he]
        rfl
      · rw [key_newArray hi, hkeys]
  | .record none entries _, k, hk, s => by
      rw [Expr.literalKey?] at hk
      obtain ⟨ks, hks, rfl⟩ := Option.map_eq_some_iff.mp hk
      obtain ⟨es, h, he, hext, hi, hkeys⟩ :=
        @gives_recordEntries entries [] ks s hks (fun e he => absurd he List.not_mem_nil)
      refine ⟨(h.newObject es).1, (h.newObject es).2, ?_,
        hext.trans (h.extends_newObject _), intact_newObject hi, ?_⟩
      · rw [expr, bind_of_success he]
        rfl
      · rw [key_newObject hi, hkeys]
  | .record (some _) .., _, hk, _ | .var .., _, hk, _ | .unary .., _, hk, _ | .binary .., _, hk, _
  | .assign .., _, hk, _ | .call .., _, hk, _ | .member .., _, hk, _ | .function _, _, hk, _
  | .block .., _, hk, _ | .recover .., _, hk, _ | .inclusion .., _, hk, _ | .branch .., _, hk, _
  | .select .., _, hk, _ => by cases hk

lemma gives_exprs : ∀ (es : List Expr) {ks : List Key}, Expr.literalKeys? es = some ks →
    ∀ s : State, ∃ vs h, exprs host es scope c s = .success vs (s.withHeap h) ∧ s.heap.Extends h
      ∧ (∀ v ∈ vs, h.Intact v) ∧ vs.map h.key = ks
  | [], ks, hk, s => by
      cases hk
      exact ⟨[], s.heap, rfl, .refl _, fun v hv => absurd hv List.not_mem_nil, rfl⟩
  | e :: es, ks, hk, s => by
      simp only [Expr.literalKeys?, Option.bind_eq_bind, Option.bind_eq_some_iff] at hk
      obtain ⟨k, hk, ks, hks, he⟩ := hk
      cases he
      obtain ⟨v, h₁, hv, hext₁, hi₁, hkey₁⟩ := gives_expr e hk s
      obtain ⟨vs, h₂, hvs, hext₂, hi₂, hkeys₂⟩ := gives_exprs es hks (s.withHeap h₁)
      refine ⟨v :: vs, h₂, ?_, hext₁.trans hext₂,
        List.forall_mem_cons.mpr ⟨Extends.intact hext₂ hi₁, hi₂⟩, ?_⟩
      · rw [exprs, bind_of_success hv, bind_of_success hvs]
        rfl
      · rw [List.map_cons, hkeys₂, Extends.key_eq hext₂ hi₁]
        exact congrArg (· :: ks) hkey₁

/-- The entries of a record have the keys that can be told from the text. -/
lemma gives_recordEntries : ∀ entries : List (Expr × Expr), GivesEntries host c scope entries
  | [], done, ks, s, hk, hdone => by
      cases hk
      exact ⟨done, s.heap, rfl, .refl _, hdone, rfl⟩
  | (k, v) :: rest, _, _, s, hk, hdone => by
      exact givesEntries_cons (gives_expr k) (gives_expr v) (gives_recordEntries rest) s hk hdone

end

/-- Reading through the address of an expression, and comparing with the expression. -/
def roundTrip (e : Expr) (line : Nat) : Expr :=
  .binary .equal (.unary .deref (.unary .addressOf e line) line) e line

/-- The address of a literal that is in place is that of an equal value. -/
lemma gives_deref {e : Expr} {k : Key} (hk : e.literalKey? = some k) {s : State}
    (hin : s.machine.InPlace s.heap k) (line : Nat) : ∃ v s',
      expr host (.unary .deref (.unary .addressOf e line) line) scope c s = .success v s'
        ∧ s'.heap.Intact v ∧ s'.heap.key v = k := by
  obtain ⟨v, h, he, hext, hi, hkey⟩ := gives_expr host c scope e hk s
  -- the stamp of the new pointer changes no key
  have hnew : ∀ index, h.Extends (h.newPointer index).2 := fun _ => extends_of_eq rfl rfl rfl rfl
  rw [expr, expr, bind_assoc, bind_of_success he, if_pos (Expr.isLiteral_of_literalKey? hk)]
  rcases hslot : s.machine.literal? k with _ | slot
  · let s' := ((s.withHeap h).mapMachine (·.newLiteral k v)).withHeap
      (h.newPointer s.machine.arena.size).2
    have haddress : addressOfLiteral v c (s.withHeap h)
        = .success (.pointer s.machine.arena.size h.pointers.size) s' := by
      simp only [addressOfLiteral, bind_apply, state, machine, State.withHeap_machine, State.key,
        State.withHeap_heap, hkey, hslot]
      rfl
    have hget : s'.machine.arena.getD s.machine.arena.size .none = v := by
      change (s.machine.arena.push v).getD _ _ = v
      rw [getD_push, if_pos rfl]
    rw [bind_of_success haddress]
    exact ⟨v, s', congrArg (Outcome.success · s') hget, (hnew _).intact hi,
      ((hnew _).key_eq hi).trans hkey⟩
  · obtain ⟨w, hw, hiw, hkeyw⟩ := hin slot hslot
    have hextw := hext.trans (hnew slot)
    let s' := (s.withHeap h).withHeap (h.newPointer slot).2
    have haddress : addressOfLiteral v c (s.withHeap h)
        = .success (.pointer slot h.pointers.size) s' := by
      simp only [addressOfLiteral, bind_apply, state, machine, State.withHeap_machine, State.key,
        State.withHeap_heap, hkey, hslot]
      rfl
    have hget : s'.machine.arena.getD slot .none = w := by
      change s.machine.arena.getD slot _ = w
      rw [Array.getD_eq_getD_getElem?, hw, Option.getD_some]
    rw [bind_of_success haddress]
    exact ⟨w, s', congrArg (Outcome.success · s') hget, hextw.intact hiw,
      (hextw.key_eq hiw).trans hkeyw⟩

/-- **Reading through the address of a literal that is in place gives an equal value.** -/
theorem expr_roundTrip {e : Expr} {k : Key} (hk : e.literalKey? = some k) {s : State}
    (hin : s.machine.InPlace s.heap k) (line : Nat) : ∃ s',
      expr host (roundTrip e line) scope c s = .success (.bool true) s' := by
  obtain ⟨v, s₁, hv, hi, hkey⟩ := gives_deref host c scope hk hin line
  obtain ⟨w, h, hw, hext, -, hkeyw⟩ := gives_expr host c scope e hk s₁
  refine ⟨s₁.withHeap h, ?_⟩
  have hsame : h.same v w = true := by
    rw [Heap.same, hext.key_eq hi, hkey, hkeyw]
    exact beq_self_eq_true k
  rw [roundTrip, expr, bind_of_success hv, bind_of_success hw]
  · exact congrArg (fun b => Outcome.success (Value.bool b) (s₁.withHeap h)) hsame
  -- `==` is not one of the operators that evaluate their right side by need
  all_goals exact fun hop => by cases hop

end Eval

/-! ## Runs -/

/-- What is known of the addresses of literals in a state: it came about by steps, and unless one of
these wrote into what the slot of a literal reaches, reading through the address of the literal
gives a value that equals it.  Nothing spoils numbers, texts, truth values and `none`. -/
structure State.LiteralsDenote (host : Host) (s : State) : Prop where
  came : ∃ ws, s.CameBy ws
  unspoiled : ∀ ws, s.CameBy ws → ∀ e k, e.literalKey? = some k → (∀ w ∈ ws, ¬ w.Spoils k) →
    ∀ c scope line, ∃ s', expr host (roundTrip e line) scope c s = .success (.bool true) s'
  scalar : ∀ l at' c scope line, ∃ s',
    expr host (roundTrip (.literal l at') line) scope c s = .success (.bool true) s'

lemma State.Traced.literalsDenote {s : State} (hs : s.Traced) (host : Host) :
    s.LiteralsDenote host := by
  refine ⟨hs.came, fun ws hws e k hk hno c scope line => ?_, fun l at' c scope line => ?_⟩
  · exact expr_roundTrip host c scope hk (hws.inPlace hno) line
  · obtain ⟨ws, hws⟩ := hs.came
    have hno : ∀ w ∈ ws, ¬ w.Spoils l.key := fun w _ => w.not_spoils_of_isScalar l.isScalar_key
    exact expr_roundTrip host c scope rfl (hws.inPlace hno) line

/-- The addresses of literals in a session, and wherever the evaluation of an expression or of
statements gets to from there. -/
structure Session.LiteralsDenote (host : Host) (s : Session) : Prop where
  here : s.state.LiteralsDenote host
  expr : ∀ settings n e scope, (expr host e scope ⟨settings, reply host settings n⟩ s.state).EndsIn
    (·.LiteralsDenote host)
  stmts : ∀ settings n body scope line,
    (stmts host body scope .none line ⟨settings, reply host settings n⟩ s.state).EndsIn
      (·.LiteralsDenote host)

/-- **The addresses of literals denote their literals in all that a host comes to**, up to writes
into arrays and objects in the slots of literals. -/
theorem literals_denote {host : Host} (hhost : host.Modest) {s : Session} {vs : List Value}
    (h : Session.Reached host s vs) : s.LiteralsDenote host := by
  have K := Tracing.upheld.observed
  have H := hhost _ _ Tracing.upheld
  have hc := Discipline.answers_reply K H
  have hs := (h.upholds K Permission.open_all Tracing.keptByHost H).state
  have hgoes : ∀ s' : State, Tracing.Goes s.state s' → s'.LiteralsDenote host :=
    fun s' hg => State.Traced.literalsDenote hg.state host
  refine ⟨State.Traced.literalsDenote hs host, fun settings n e scope => ?_,
    fun settings n body scope line => ?_⟩
  · exact (Discipline.keeps_expr K H (hc settings n) e scope hs).goes.imp hgoes
  · exact (Discipline.keeps_stmts K H (hc settings n) body
      (fun st _ => (Permission.open_all scope).permits st) line hs (K.plain rfl)).goes.imp hgoes

/-- A program that takes the addresses of literals. -/
def addressProgram : String := "let p = &[1, 2]\nlet q = &7\n*q"

/-- An array of numbers as an expression. -/
def pairLiteral : Expr := .array [.literal (.number 1) 1, .literal (.number 2) 1] 1

/-- The address of an array literal in a new session, and that of a number after a program. -/
theorem literals_denote_pair :
    (∃ s', expr Host.bare (roundTrip pairLiteral 1) Session.bare.globals
      ⟨{}, reply Host.bare {} 3⟩ Session.bare.state = .success (.bool true) s')
    ∧ ∃ r s s', Session.bare.evaluate addressProgram = .ok (.ok r, s)
      ∧ expr Host.bare (roundTrip (.literal (.number 7) 1) 1) s.globals
        ⟨s.settings, reply Host.bare s.settings 3⟩ s.state = .success (.bool true) s' := by
  constructor
  · have hbare := (literals_denote Host.modest_bare (.start {} (fun _ => none) none)).here
    exact hbare.unspoiled [] ⟨_, rfl, .done _ _⟩ pairLiteral _ rfl
      (fun w hw => absurd hw List.not_mem_nil) _ _ 1
  · obtain ⟨r, s, hr, -⟩ := @Session.exists_of_gave (Session.bare.evaluate addressProgram)
      (fun _ _ => true) (by decide +kernel)
    have hs := (literals_denote Host.modest_bare (.evaluate (.start ..) hr)).here
    let c : Context := ⟨s.settings, reply Host.bare s.settings 3⟩
    obtain ⟨s', hs'⟩ := hs.scalar (.number 7) 1 c s.globals 1
    exact ⟨r, s, s', hr, hs'⟩

/-! ## A literal that is spoiled -/

/-- A program that writes into the array in the slot of a literal. -/
def spoilProgram : String := "let p = &[1, 2]\nlet xs = *p\nxs[0] = 9"

/-- A program that reads through the address of the literal, and compares. -/
def readBackProgram : String := "*(&[1, 2]) == [1, 2]"

/-- A session that a host comes to, in which the address of a literal is that of another value. -/
theorem spoiled_literal : ∃ r s s', Session.bare.evaluate spoilProgram = .ok (.ok r, s)
    ∧ Session.Reached Host.bare s [r]
    ∧ s.evaluate readBackProgram = .ok (.ok (.bool false), s') := by
  obtain ⟨r, s, hr, hs⟩ := @Session.exists_of_gave (Session.bare.evaluate spoilProgram)
    (fun _ s => Session.gave (s.evaluate readBackProgram) fun v _ => v.isFalse) (by decide +kernel)
  obtain ⟨v, s', hr', hv⟩ := Session.exists_of_gave hs
  obtain rfl := Value.eq_false_of_isFalse hv
  exact ⟨r, s, s', hr, .evaluate (.start ..) hr, hr'⟩

end StampScript
