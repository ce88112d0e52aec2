/-
# Runs that write through a buffer

A sink that takes every offer as a whole is described by the bytes that it has taken so far.  A
buffer in front of it holds back some of them, but the two together are such a sink again:
`Sink.TakesAll.buffered`.  A run into it cannot fail, and with the flush at its end everything
is behind the buffer: `transcribe_of_takesAll`.

Of any sink, what each write and each flush keeps is kept by a whole run: `transcribe_keeps`.
-/
import Reckoner.Proofs.Accounting
import Reckoner.Sink.Buffered

namespace Reckoner

variable {σ α : Type}

/-- Writing in the way of `act` takes all bytes, and says so with `taken`.  That `s` has taken the
bytes `held` before is `Has held s`. -/
def Sink.Takes (Has : Bytes → σ → Prop) (taken : Bytes → α)
    (act : Bytes → σ → Except IoError α × σ) : Prop :=
  ∀ ⦃held s⦄, Has held s → ∀ bytes, ∃ s',
    act bytes s = (.ok (taken bytes), s') ∧ Has (held ++ bytes) s'

/-- The sinks for which `Has held s` says that `s` has taken the bytes `held` take every offer as
a whole. -/
structure Sink.TakesAll [Sink σ] (Has : Bytes → σ → Prop) : Prop where
  write : Sink.Takes Has List.length (Sink.write (σ := σ))
  writeAll : Sink.Takes Has (fun _ => ()) (Sink.writeAll (σ := σ))

/-- The sink behind the buffer has taken a beginning of the bytes, and the buffer holds the
rest. -/
def Buffered.Has (Has : Bytes → σ → Prop) (held : Bytes) (b : Buffered σ) : Prop :=
  ∃ front, Has front b.inner ∧ front ++ b.pending = held

/-- What is said of a sink stays true of it, whatever is done with it. -/
structure Sink.Keeps [Sink σ] (I : σ → Prop) : Prop where
  write : ∀ bytes {s}, I s → I (Sink.write bytes s).2
  flush : ∀ {s}, I s → I (Sink.flush s).2
  writeAll : ∀ bytes {s}, I s → I (Sink.writeAll bytes s).2

/-! ## Sinks that take everything -/

namespace Sink

variable {Has : Bytes → σ → Prop} {held : Bytes} {s : σ}
  {write : Bytes → σ → Except IoError Nat × σ}

/-- If every offer is taken, there is no more than one of them. -/
lemma Takes.offerAll (h : Takes Has List.length write) (hs : Has held s) (stalled : IoError)
    (bytes : Bytes) :
    ∃ s', offerAll write stalled bytes s = (.ok (), [], s') ∧ Has (held ++ bytes) s' := by
  cases bytes with
  | nil => exact ⟨s, offerAll_nil s, by rwa [List.append_nil]⟩
  | cons b rest =>
    obtain ⟨s', hwrite, hs'⟩ := h hs (b :: rest)
    refine ⟨s', ?_, hs'⟩
    rw [offerAll_cons, hwrite, List.length_cons]
    simp

lemma Takes.writeOffering (h : Takes Has List.length write) :
    Takes Has (fun _ => ()) (writeOffering write) := by
  intro held s hs bytes
  obtain ⟨s', hoffer, hs'⟩ := h.offerAll hs .writeZero bytes
  exact ⟨s', by rw [Sink.writeOffering, hoffer], hs'⟩

lemma TakesAll.writeEach [Sink σ] (h : TakesAll Has) (hs : Has held s) (portions : List Bytes) :
    ∃ s', writeEach portions s = (.ok (), s') ∧ Has (held ++ portions.flatten) s' := by
  induction portions generalizing held s with
  | nil => exact ⟨s, rfl, by rwa [List.flatten_nil, List.append_nil]⟩
  | cons portion portions ih =>
    obtain ⟨s', hwrite, hs'⟩ := h.writeAll hs portion
    obtain ⟨s'', hrest, hs''⟩ := ih hs'
    refine ⟨s'', ?_, by rwa [List.flatten_cons, ← List.append_assoc]⟩
    rw [Sink.writeEach, hwrite]
    exact hrest

end Sink

variable [Sink σ]

namespace Buffered

variable {Has : Bytes → σ → Prop} {held : Bytes} {b : Buffered σ} {taken : Bytes → α}
  {past : Bytes → σ → Except IoError α × σ}

lemma drain_of_takesAll (h : Sink.TakesAll Has) (hb : Buffered.Has Has held b) :
    ∃ inner, b.drain = (.ok (), { b with inner := inner, pending := [] }) ∧ Has held inner := by
  obtain ⟨front, hfront, rfl⟩ := hb
  obtain ⟨inner, hoffer, hinner⟩ := h.write.offerAll hfront .bufferStalled b.pending
  exact ⟨inner, by rw [drain, hoffer], hinner⟩

omit [Sink σ] in
/-- A buffer takes what it has room for.  Past the buffer goes only what would fill it, and then
the buffer is empty, so that the bytes keep their order. -/
lemma accept_of_takes (h : Sink.Takes Has taken past) (hb : Buffered.Has Has held b)
    {bytes : Bytes} (hroom : b.pending.length + bytes.length ≤ b.capacity) :
    ∃ b', b.accept bytes (taken bytes) (past bytes) = (.ok (taken bytes), b') ∧
      Buffered.Has Has (held ++ bytes) b' := by
  obtain ⟨front, hfront, rfl⟩ := hb
  by_cases hfills : b.capacity ≤ bytes.length
  · have hempty : b.pending = [] := List.length_eq_zero_iff.mp (by omega)
    obtain ⟨inner, hpast, hinner⟩ := h hfront bytes
    refine ⟨{ b with inner := inner }, ?_, front ++ bytes, hinner, by simp [hempty]⟩
    rw [accept, if_pos hfills, hpast]
  · refine ⟨{ b with pending := b.pending ++ bytes }, ?_, front, hfront, by simp⟩
    rw [accept, if_neg hfills]

lemma receive_of_takes (hinner : Sink.TakesAll Has) (h : Sink.Takes Has taken past) :
    Sink.Takes (Buffered.Has Has) taken
      fun bytes b => b.receive bytes (taken bytes) (past bytes) := by
  intro held b hb bytes
  simp only [receive]
  split_ifs with hroom
  · exact accept_of_takes h hb hroom
  · -- the buffer is emptied first
    obtain ⟨inner, hdrain, hheld⟩ := drain_of_takesAll hinner hb
    rw [hdrain]
    have hb' : Buffered.Has Has held { b with inner := inner, pending := [] } :=
      ⟨held, hheld, List.append_nil held⟩
    by_cases hlong : bytes.length ≤ b.capacity
    · -- and then there is room
      exact accept_of_takes h hb' (by simpa using hlong)
    · -- or the bytes are longer than any room, and go past it
      obtain ⟨inner', hpast, hheld'⟩ := h hheld bytes
      refine ⟨{ b with inner := inner', pending := [] }, ?_, _, hheld', List.append_nil _⟩
      simp only [accept, if_pos (show b.capacity ≤ bytes.length by omega), hpast]

lemma flush_of_takesAll (h : Sink.TakesAll Has) (hb : Buffered.Has Has held b) :
    ∃ inner, Has held inner ∧ Sink.flush b =
      ((Sink.flush inner).1, { b with inner := (Sink.flush inner).2, pending := [] }) := by
  obtain ⟨inner, hdrain, hinner⟩ := drain_of_takesAll h hb
  refine ⟨inner, hinner, ?_⟩
  show b.flush = _
  rw [flush, hdrain]

/-- An empty buffer passes nothing on when it is given up. -/
lemma close_of_pending_eq_nil (h : b.pending = []) : b.close = b.inner := by
  rw [close, drain, h, Sink.offerAll_nil]

end Buffered

/-- **A buffer in front of a sink that takes everything is a sink that takes everything.** -/
lemma Sink.TakesAll.buffered {Has : Bytes → σ → Prop} (h : Sink.TakesAll Has) :
    Sink.TakesAll (Buffered.Has Has) where
  write := Buffered.receive_of_takes h h.write
  writeAll := Buffered.receive_of_takes h h.writeAll

namespace Transcript

variable {Has : Bytes → σ → Prop} {held : Bytes} {s : σ}

lemma ofVerdicts_of_takesAll (h : Sink.TakesAll Has) (hs : Has held s) (number : Nat)
    (report : Report) (vs : List Verdict) :
    ∃ s', Has (held ++ outputOf vs) s' ∧
      ofVerdicts number report vs s =
        { finish (report + Report.ofVerdicts vs) s' with events := eventsOf number vs } := by
  -- `held` is what the lines so far have put out, and `report` what they have counted
  induction vs using verdict_induction generalizing number report held s with
  | nil => exact ⟨s, by rwa [outputOf, List.flatMap_nil, List.append_nil], rfl⟩
  | skipped v vs hv ih =>
    obtain ⟨s', hs', hrun⟩ := ih hs (number + 1) report.countScanned.countSkipped
    rw [outputOf_of_skipped hv]
    refine ⟨s', hs', ?_⟩
    rw [ofVerdicts_of_skipped hv, hrun, report.countSkipped_add hv]
    rfl
  | recorded r vs ih =>
    obtain ⟨t, hwrite, ht⟩ := h.writeEach hs r.portions
    rw [r.flatten_portions] at ht
    obtain ⟨s', hs', hrun⟩ := ih ht (number + 1) report.countScanned.countWritten
    rw [List.append_assoc] at hs'
    refine ⟨s', hs', ?_⟩
    rw [ofVerdicts, hwrite, ← report.countWritten_add]
    exact hrun

end Transcript

/-- **A run through a buffer in front of a sink that takes everything** tells and counts what a
run into an unlimited sink does.  If the sink can be flushed, it has taken the same bytes. -/
lemma transcribe_of_takesAll {Has : Bytes → σ → Prop} (h : Sink.TakesAll Has)
    (hflush : ∀ {held s}, Has held s → Sink.flush s = (.ok (), s)) {s : σ} (hs : Has [] s)
    (input : Bytes) :
    let full := transcribe input Tank.unlimited
    let t := transcribe input (Buffered.of s)
    t.outcome = full.outcome ∧ t.events = full.events ∧ Has full.sink.held t.sink.close := by
  have hb : Buffered.Has Has [] (Buffered.of s) := ⟨[], hs, rfl⟩
  obtain ⟨b, hb', hrun⟩ :=
    Transcript.ofVerdicts_of_takesAll h.buffered hb 1 .none (verdicts input)
  rw [List.nil_append] at hb'
  obtain ⟨inner, hinner, hflushed⟩ := Buffered.flush_of_takesAll h hb'
  rw [hflush hinner] at hflushed
  rw [transcribe_unlimited_eq, transcribe, Transcript.ofRest_eq_ofVerdicts, hrun,
    Transcript.finish, hflushed, Report.none_add]
  refine ⟨?_, eventsOf_map_ofLine 1 _, ?_⟩
  · exact congrArg Except.ok (ofVerdicts_map_ofLine _)
  · rw [verdicts, outputOf_map_ofLine] at hinner
    rw [Buffered.close_of_pending_eq_nil rfl]
    exact hinner

/-! ## What a run keeps -/

namespace Sink

variable {I : σ → Prop} {s : σ}

omit [Sink σ] in
lemma keeps_offerAll {write : Bytes → σ → Except IoError Nat × σ}
    (h : ∀ bytes {s}, I s → I (write bytes s).2) (stalled : IoError) (bytes : Bytes)
    (hs : I s) : I (offerAll write stalled bytes s).2.2 := by
  fun_induction offerAll write stalled bytes s with
  | case1 s => exact hs
  | case2 s b rest e t hwrite =>
    have ht := h (b :: rest) hs
    rwa [hwrite] at ht
  | case3 s b rest t hwrite =>
    have ht := h (b :: rest) hs
    rwa [hwrite] at ht
  | case4 s b rest n t hwrite ih =>
    have ht := h (b :: rest) hs
    rw [hwrite] at ht
    exact ih ht

lemma Keeps.of_writeEach (h : Keeps I) (hs : I s) (portions : List Bytes) :
    I (Sink.writeEach portions s).2 := by
  induction portions generalizing s with
  | nil => exact hs
  | cons portion portions ih =>
    have hwritten := h.writeAll portion hs
    rw [Sink.writeEach]
    split
    · next hwrite => rwa [hwrite] at hwritten
    · next hwrite =>
      rw [hwrite] at hwritten
      exact ih hwritten

end Sink

namespace Buffered

variable {I : σ → Prop} {b : Buffered σ} {taken : α} {past : σ → Except IoError α × σ}

lemma keeps_drain (h : Sink.Keeps I) (hb : I b.inner) : I b.drain.2.inner :=
  Sink.keeps_offerAll h.write _ _ hb

omit [Sink σ] in
lemma keeps_accept (hpast : ∀ {s}, I s → I (past s).2) (hb : I b.inner) (bytes : Bytes) :
    I (b.accept bytes taken past).2.inner := by
  unfold accept
  split_ifs
  · exact hpast hb
  · exact hb

lemma keeps_receive (h : Sink.Keeps I) (hpast : ∀ {s}, I s → I (past s).2) (hb : I b.inner)
    (bytes : Bytes) : I (b.receive bytes taken past).2.inner := by
  have hdrained := keeps_drain h hb
  unfold receive
  split_ifs
  · exact keeps_accept hpast hb bytes
  · split
    · next hdrain =>
      rw [hdrain] at hdrained
      exact keeps_accept hpast hdrained bytes
    · next hdrain => rwa [hdrain] at hdrained

/-- A buffer does nothing to the sink behind it but to write to it and to flush it. -/
lemma keeps_inner (h : Sink.Keeps I) : Sink.Keeps fun b : Buffered σ => I b.inner where
  write := fun bytes _ hb => keeps_receive h (h.write bytes) hb bytes
  flush := by
    intro b hb
    have hdrained := keeps_drain h hb
    show I b.flush.2.inner
    unfold Buffered.flush
    split
    · next hdrain =>
      rw [hdrain] at hdrained
      exact h.flush hdrained
    · next hdrain => rwa [hdrain] at hdrained
  writeAll := fun bytes _ hb => keeps_receive h (h.writeAll bytes) hb bytes

end Buffered

lemma Transcript.keeps_ofVerdicts {I : σ → Prop} {s : σ} (h : Sink.Keeps I) (hs : I s)
    (number : Nat) (report : Report) (vs : List Verdict) :
    I (ofVerdicts number report vs s).sink := by
  induction vs using verdict_induction generalizing number report s with
  | nil => exact h.flush hs
  | skipped v vs hv ih =>
    rw [ofVerdicts_of_skipped hv]
    exact ih hs _ _
  | recorded r vs ih =>
    have hwritten := h.of_writeEach hs r.portions
    rw [ofVerdicts]
    split
    · next hwrite => rwa [hwrite] at hwritten
    · next hwrite =>
      rw [hwrite] at hwritten
      exact ih hwritten _ _

/-- **What every write to a sink keeps, a run through a buffer in front of it keeps,** until the
buffer is given up. -/
lemma transcribe_keeps {I : σ → Prop} (h : Sink.Keeps I) {s : σ} (hs : I s) (input : Bytes) :
    I (transcribe input (Buffered.of s)).sink.close := by
  rw [transcribe, Transcript.ofRest_eq_ofVerdicts]
  exact Buffered.keeps_drain h (Transcript.keeps_ofVerdicts (Buffered.keeps_inner h) hs 1 .none _)

end Reckoner
