import Expresso.Transition.Runs

/-! Readers whose input is commands, and after some of these content up to an end mark; and the
sender's view of the same input. -/

namespace Expresso.Transition

structure Reader (σ ι : Type) where
  step : σ → ι → σ
  /-- the next input is read as content -/
  content : σ → Bool
  /-- the next input is read at all -/
  reads : σ → Bool
  /-- the answer to the input asks for content -/
  asks : σ → ι → Bool
  ends : ι → Bool

namespace Reader

variable {σ ι : Type} (reader : Reader σ ι)

/-- The reader stops to read content at an input that does not end it. -/
def Interrupts (s : σ) (a : ι) : Prop :=
  reader.content s = true ∧ reader.ends a = false ∧ reader.content (reader.step s a) = false

/-- Where a reader turns from commands to content and back. -/
structure Lawful : Prop where
  turns : ∀ s a, reader.content s = false →
    reader.content (reader.step s a) = reader.asks s a
  quiet : ∀ s a, reader.content s = true → reader.asks s a = false
  finishes : ∀ s a, reader.content s = true → reader.ends a = true →
    reader.content (reader.step s a) = false
  mark : ∀ s a, reader.content s = false → reader.ends a = true → reader.asks s a = false
  goesOn : ∀ s a, reader.Interrupts s a → reader.reads (reader.step s a) = true

/-- The reader and what its sender takes the next input for: content from where it was asked for
to the mark. -/
def withSender (x : σ × Bool) (a : ι) : σ × Bool :=
  (reader.step x.1 a, if x.2 then !reader.ends a else reader.asks x.1 a)

/-- Content of the sender is read as a command. -/
def Smuggled (x : σ × Bool) (a : ι) : Prop :=
  x.2 = true ∧ reader.ends a = false ∧ reader.content x.1 = false ∧ reader.reads x.1 = true

/-- After an input of some kind, none or the end mark comes next. -/
def Guarded (kind : σ → ι → Prop) : σ → List ι → Prop
  | s, a :: b :: rest =>
      (kind s a → reader.ends b = true) ∧ Guarded kind (reader.step s a) (b :: rest)
  | _, _ => True

variable {reader}

theorem guarded_congr {kind kind' : σ → ι → Prop} (same : ∀ s a, kind s a ↔ kind' s a) (s : σ)
    (inputs : List ι) : reader.Guarded kind s inputs ↔ reader.Guarded kind' s inputs := by
  have kinds : kind = kind' := by
    funext s a
    exact propext (same s a)
  rw [kinds]

/-- No input is smuggled as long as the sender and the reader agree on the next one. -/
theorem agreed_not_smuggled (s : σ) (a : ι) : ¬reader.Smuggled (s, reader.content s) a := by
  intro ⟨sent, _, read, _⟩
  cases sent.symm.trans read

/-- At a mark the sender's view is the same wherever it was. -/
theorem withSender_mark (lawful : reader.Lawful) {s : σ} {a : ι} (ends : reader.ends a = true)
    (command : reader.content s = false) :
    reader.withSender (s, true) a = reader.withSender (s, false) a := by
  simp [withSender, ends, lawful.mark s a command ends]

theorem withSender_agreed (lawful : reader.Lawful) {s : σ} {a : ι}
    (goesOn : ¬reader.Interrupts s a) :
    reader.withSender (s, reader.content s) a =
      (reader.step s a, reader.content (reader.step s a)) := by
  unfold withSender
  cases content : reader.content s with
  | false => simp [lawful.turns s a content]
  | true =>
    cases ends : reader.ends a with
    | true => simp [lawful.finishes s a content ends]
    | false =>
      cases next : reader.content (reader.step s a) with
      | true => simp
      | false => exact absurd ⟨content, ends, next⟩ goesOn

theorem withSender_interrupted {s : σ} {a : ι} (interrupts : reader.Interrupts s a) :
    reader.withSender (s, reader.content s) a = (reader.step s a, true) := by
  obtain ⟨content, ends, -⟩ := interrupts
  simp [withSender, content, ends]

/-- After an interruption, all that the sender takes for content is smuggled. -/
theorem interrupted_iff (lawful : reader.Lawful) {s : σ} (command : reader.content s = false)
    (reads : reader.reads s = true) (b : ι) (rest : List ι) :
    EachStep reader.withSender (fun x a => ¬reader.Smuggled x a) (s, true) (b :: rest) ↔
      reader.ends b = true ∧
        EachStep reader.withSender (fun x a => ¬reader.Smuggled x a) (s, false) (b :: rest) := by
  rw [EachStep, EachStep]
  cases ends : reader.ends b with
  | true => simp [withSender_mark lawful ends command, Smuggled, ends]
  | false => simp [Smuggled, ends, command, reads]

/-- Nothing is smuggled over a run if and only if nothing but the end mark follows an input that
interrupts the content. -/
theorem no_smuggling_iff (lawful : reader.Lawful) (s : σ) (inputs : List ι) :
    EachStep reader.withSender (fun x a => ¬reader.Smuggled x a) (s, reader.content s) inputs ↔
      reader.Guarded reader.Interrupts s inputs := by
  induction inputs generalizing s with
  | nil => exact Iff.rfl
  | cons a rest ih =>
    cases rest with
    | nil => exact ⟨fun _ => trivial, fun _ => ⟨agreed_not_smuggled s a, trivial⟩⟩
    | cons b rest =>
      rw [EachStep, Guarded, ← ih, and_iff_right (agreed_not_smuggled s a)]
      by_cases interrupts : reader.Interrupts s a
      · have command := interrupts.2.2
        rw [withSender_interrupted interrupts,
          interrupted_iff lawful command (lawful.goesOn s a interrupts), command]
        exact and_congr_left fun _ => ⟨fun ends _ => ends, fun ends => ends interrupts⟩
      · rw [withSender_agreed lawful interrupts]
        exact ⟨fun rest => ⟨fun interrupted => absurd interrupted interrupts, rest⟩, And.right⟩

end Reader

end Expresso.Transition
