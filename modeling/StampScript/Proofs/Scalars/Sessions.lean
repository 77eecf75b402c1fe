import StampScript.Proofs.Discipline.Sessions
import StampScript.Proofs.Scalars.Kept

/-!
# Scalar types over whole sessions

Whatever a host does with a session, and whether it succeeds or fails, the values that the session
holds are of the scalar types that are declared or stamped for them.  An object can be the
exception: while an entry is checked against its stamp, the check may give the object another stamp,
and then the entry goes in unchecked.  Such entries are counted, and as long as there is none,
objects and variables are no exception either.

* `State.Holds`, `State.Conforms` — values are of their scalar types, everywhere.
* **`Session.Reached.conforms`** — what a host comes to conforms.
* `stray_entry` — a program that leaves a number's place to an object.
-/

namespace StampScript

/-- The value is in a variable, an array, an object, a field, a static field or a slot. -/
inductive State.Holds (s : State) : Value → Prop
  | var (ref : Nat) : s.Holds (s.heap.variableAt ref).value
  | item {ref : Nat} {v : Value} : v ∈ (s.heap.array ref).items → s.Holds v
  | key {ref : Nat} {e : Key × Value × Value} : e ∈ (s.heap.object ref).entries → s.Holds e.2.1
  | entry {ref : Nat} {e : Key × Value × Value} : e ∈ (s.heap.object ref).entries → s.Holds e.2.2
  | field {ref : Nat} {e : String × Value} : e ∈ (s.heap.struct ref).fields → s.Holds e.2
  | static {ref : Nat} {e : String × Ty × Value} :
      e ∈ (s.heap.structDecl ref).statics → s.Holds e.2.2
  | slot {v : Value} : v ∈ s.machine.arena → s.Holds v

/-- Fields, static fields, payloads, and the elements of arrays and tuples are of the scalar types
that are declared or stamped for them, and tuples have their length. -/
structure State.PartsConform (s : State) : Prop where
  field : ∀ ref e t, e ∈ (s.heap.struct ref).fields →
    (s.heap.parent ref).fields.get? e.1 = some t → t.IsScalar → t.admits e.2
  static : ∀ ref e, e ∈ (s.heap.structDecl ref).statics → e.2.1.IsScalar → e.2.1.admits e.2.2
  payload : ∀ v, s.Holds v → v.Sound
  element : ∀ ref t, (s.heap.array ref).stamp = some (.array t) → t.IsScalar →
    ∀ v ∈ (s.heap.array ref).items, t.admits v
  length : ∀ ref ts, (s.heap.array ref).stamp = some (.tuple ts) →
    (s.heap.array ref).items.size = ts.length
  position : ∀ ref ts, (s.heap.array ref).stamp = some (.tuple ts) →
    ∀ (i : Nat) (t : Ty) (v : Value), ts[i]? = some t → (s.heap.array ref).items[i]? = some v →
      t.IsScalar → t.admits v

/-- All values, those of variables and objects too, are of the scalar types that are declared or
stamped for them. -/
structure State.Conforms (s : State) : Prop extends s.PartsConform where
  var : ∀ ref, (s.heap.variableAt ref).type.IsScalar →
    (s.heap.variableAt ref).type.admits (s.heap.variableAt ref).value
  entry : ∀ ref k t, (s.heap.object ref).stamp = some (.record k t) →
    ∀ e ∈ (s.heap.object ref).entries,
      (k.IsScalar → k.admits e.2.1) ∧ (t.IsScalar → t.admits e.2.2)

namespace State.Sound

variable {s : State}

lemma holds (hs : s.Sound) {v : Value} (hv : s.Holds v) : v.Sound := by
  cases hv with
  | var ref => exact hs.heap.vars ref
  | item h => exact (hs.heap.arrays _).item _ h
  | key h => exact (hs.heap.objects _ _ h).1
  | entry h => exact (hs.heap.objects _ _ h).2
  | field h => exact (hs.heap.structs _ _ h).1
  | static h => exact (hs.heap.structDecls _ _ h).1
  | slot h => exact hs.arena _ h

lemma partsConform (hs : s.Sound) : s.PartsConform where
  field ref e t he ht hscalar := by
    have hfits := hs.heap.structs ref e he
    rw [ht] at hfits
    exact hfits.2 hscalar
  static ref e he := (hs.heap.structDecls ref e he).2
  payload _ hv := hs.holds hv
  element ref t ht hscalar v hv := (hs.heap.arrays ref).element t ht v hv hscalar
  length ref := (hs.heap.arrays ref).length
  position ref := (hs.heap.arrays ref).position

lemma conforms_of_no_strays (hs : s.Sound) (h0 : s.heap.strays = 0) : s.Conforms :=
  { hs.partsConform with
    var := (hs.heap.told h0).vars
    entry := (hs.heap.told h0).objects }

end State.Sound

lemma Scalars.keptByHost : Scalars.KeptByHost where
  start _ file := ⟨Heap.sound_empty, by cases file <;> exact nofun⟩
  settled hs := Scalars.goes_of_arena hs hs.arena
  drained hs := ⟨⟨hs.heap, hs.arena⟩, .refl _⟩

/-- **What a host comes to conforms.**  Fields, static fields, payloads, arrays and tuples always
hold values of their scalar types; so do variables and objects as long as no entry went into an
object under another stamp than the one it was checked against. -/
theorem Session.Reached.conforms {host : Host} {s : Session} {vs : List Value}
    (hhost : host.Regular) (h : Session.Reached host s vs) :
    s.state.PartsConform ∧ (s.state.heap.strays = 0 → s.state.Conforms) := by
  have hs := (h.keeps Scalars.kept Scalars.keptByHost hhost).state
  exact ⟨hs.partsConform, hs.conforms_of_no_strays⟩

/-- A program whose function is called by a native, with arrays, tuples and tags around. -/
def typedProgram : String :=
  "tag Found \x7b No, At(Number) \x7d\nfun f(n: Number) Number \x7b n + 1 \x7d\n"
    ++ "mut xs: Number[] = [1, 2]\nxs[0] = host_apply(f, 3)\n"
    ++ "let pair: [Number, String] = [xs[0], \"a\"]\nlet found: Found = Found::At(pair[0])"

/-- A session of a host with natives. -/
def embedded : Session :=
  Embedding.install (Session.start {} (fun _ => none) none Embedding.host)

lemma reached_embedded : Session.Reached Embedding.host embedded [] :=
  .defineForm _ (.defineForm _ (.defineNative _ (.defineNative _ (.defineNative _
    (.defineNative _ (.defineNative _ (.start ..)))))))

/-- What a typed program leaves behind conforms. -/
theorem conforms_typed : ∃ r s, embedded.evaluate typedProgram = .ok (.ok r, s) ∧
    s.state.Conforms := by
  obtain ⟨r, s, hr, h0⟩ := @Session.exists_of_gave (embedded.evaluate typedProgram)
    (fun _ s => s.state.heap.strays == 0) (by decide +kernel)
  have hs := Session.Reached.conforms Embedding.host_regular (.evaluate reached_embedded hr)
  exact ⟨r, s, hr, hs.2 (eq_of_beq h0)⟩

/-! ## An entry that goes astray -/

/-- A program that assigns an object to itself. -/
def strayProgram : String := "mut m: <String: <String: Number>> = \x7b\x7d\nm[\"a\"] = m"

/-- The stamp of the object promises numbers that it does not hold. -/
def breaksPromise (ref : Nat) (s : Session) : Bool :=
  match (s.state.heap.object ref).stamp with
  | some (.record _ (.number none)) =>
    (s.state.heap.object ref).entries.any (fun e => !(Ty.number none).admits e.2.2)
  | _ => false

lemma not_conforms_of_breaksPromise {s : Session} {ref : Nat} (h : breaksPromise ref s) :
    ¬ s.state.Conforms := by
  intro hs
  rw [breaksPromise] at h
  split at h
  · next k hstamp =>
    obtain ⟨e, he, hno⟩ := List.any_eq_true.mp h
    rw [(hs.entry ref k _ hstamp e he).2 trivial] at hno
    cases hno
  · cases h

/-- A session that a host comes to does not conform: an object that was assigned to itself got the
stamp of its own values while it was checked. -/
theorem stray_entry : ∃ r s, Session.bare.evaluate strayProgram = .ok (.ok r, s) ∧
    Session.Reached Host.bare s [r] ∧ ¬ s.state.Conforms := by
  obtain ⟨r, s, hr, hs⟩ := @Session.exists_of_gave (Session.bare.evaluate strayProgram)
    (fun _ s => breaksPromise 0 s) (by decide +kernel)
  exact ⟨r, s, hr, .evaluate (.start ..) hr, not_conforms_of_breaksPromise hs⟩

end StampScript
