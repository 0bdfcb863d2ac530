import Goulette.Library.ByteFrames

/-! A buffer in front of a sink, as `bufio.Writer` has it. A failure of the sink sticks; a sink
takes bytes all or not at all.
-/

namespace BufferedWriter

open ByteFrames List

/-- What waits for the sink, and the failure that has stopped it. -/
structure Buffer (E : Type) where
  pending : Bytes
  failure : Option E
deriving DecidableEq

def Buffer.empty {E : Type} : Buffer E := { pending := [], failure := none }

variable {S E : Type} (put : S → Bytes → S × Option E) (capacity : Nat)

def flush (state : S × Buffer E) : S × Buffer E :=
  if state.2.failure.isSome ∨ state.2.pending = [] then state
  else
    match put state.1 state.2.pending with
    | (sink, none) => (sink, .empty)
    | (sink, some failure) => (sink, { state.2 with failure := some failure })

def putDirectly (state : S × Buffer E) (bytes : Bytes) : S × Buffer E :=
  ((put state.1 bytes).1, { state.2 with failure := (put state.1 bytes).2 })

/-- Bytes that do not fit are handed over directly if nothing waits. Otherwise they fill the
buffer up, and what is left after a flush is treated in the same way, now with nothing waiting.
-/
def write (state : S × Buffer E) (bytes : Bytes) : S × Buffer E :=
  let available := capacity - state.2.pending.length
  if state.2.failure.isSome then state
  else if bytes.length ≤ available then
    (state.1, { state.2 with pending := state.2.pending ++ bytes })
  else if state.2.pending = [] then putDirectly put state bytes
  else
    let flushed := flush put
      (state.1, { state.2 with pending := state.2.pending ++ bytes.take available })
    let rest := bytes.drop available
    if flushed.2.failure.isSome then flushed
    else if rest.length ≤ capacity then (flushed.1, { flushed.2 with pending := rest })
    else putDirectly put flushed rest

/-- A sink that holds some content takes any bytes behind it. -/
def Accepts (Keeps : S → Bytes → Prop) : Prop :=
  ∀ {sink content}, Keeps sink content → ∀ bytes,
    (put sink bytes).2 = none ∧ Keeps (put sink bytes).1 (content ++ bytes)

/-- The sink has got the front of what was written, and the rest waits. -/
structure Carries (Keeps : S → Bytes → Prop) (state : S × Buffer E) (content written : Bytes)
    : Prop where
  kept : Keeps state.1 content
  running : state.2.failure = none
  fits : state.2.pending.length ≤ capacity
  whole : content ++ state.2.pending = written

variable {put capacity} {Keeps : S → Bytes → Prop} {state : S × Buffer E}
  {content written : Bytes}

theorem Carries.length (h : Carries capacity Keeps state content written)
    : content.length + state.2.pending.length = written.length := by
  rw [← h.whole, length_append]

/-- After a flush the sink has got everything. -/
theorem Carries.flush (accepts : Accepts put Keeps)
    (h : Carries capacity Keeps state content written)
    : Carries capacity Keeps (flush put state) written written := by
  obtain ⟨kept, running, fits, whole⟩ := h
  unfold BufferedWriter.flush
  split
  · next idle =>
      have nothing : state.2.pending = [] := by simpa [running] using idle
      rw [nothing, append_nil] at whole
      exact ⟨whole ▸ kept, running, fits, by rw [nothing, append_nil]⟩
  · obtain ⟨taken, holds⟩ := accepts kept state.2.pending
    rw [whole] at holds
    split
    · next sink result =>
        rw [result] at holds
        exact ⟨holds, rfl, Nat.zero_le _, append_nil _⟩
    · next sink failure result =>
        rw [result] at taken
        cases taken

theorem Carries.nothing_pending (h : Carries capacity Keeps state written written)
    : state.2.pending = [] :=
  append_right_eq_self.mp h.whole

theorem Carries.putDirectly (accepts : Accepts put Keeps)
    (h : Carries capacity Keeps state written written) (bytes : Bytes)
    : Carries capacity Keeps (putDirectly put state bytes) (written ++ bytes)
        (written ++ bytes) := by
  obtain ⟨taken, holds⟩ := accepts h.kept bytes
  exact ⟨holds, taken, h.fits,
    by rw [BufferedWriter.putDirectly, h.nothing_pending, append_nil]⟩

/-- Bytes that fit wait behind those that do already. -/
theorem Carries.wait (h : Carries capacity Keeps state content written) {bytes : Bytes}
    (room : state.2.pending.length + bytes.length ≤ capacity)
    : Carries capacity Keeps
        (state.1, { state.2 with pending := state.2.pending ++ bytes }) content
        (written ++ bytes) where
  kept := h.kept
  running := h.running
  fits := by rwa [length_append]
  whole := by rw [← append_assoc, h.whole]

/-- Bytes that fit wait; otherwise the sink has got at least all that waited before. Bytes that
come first go to the sink whole, and a full buffer goes there alone.
-/
inductive Advance (capacity : Nat) (content written bytes : Bytes) (waiting : Nat)
    : Bytes → Prop
  | waits (room : waiting + bytes.length ≤ capacity)
    : Advance capacity content written bytes waiting content
  | puts {more : Bytes} (full : capacity < waiting + bytes.length) (drained : written <+: more)
      (long : capacity ≤ more.length) (first : written = [] → more = bytes)
      (alone : waiting = capacity → bytes.length ≤ capacity → more = written)
    : Advance capacity content written bytes waiting more

/-- A write adds its bytes to those written, split anew between the sink and the buffer. -/
theorem Carries.write (accepts : Accepts put Keeps)
    (h : Carries capacity Keeps state content written) (bytes : Bytes)
    : ∃ more,
        Carries capacity Keeps (write put capacity state bytes) more (written ++ bytes)
        ∧ Advance capacity content written bytes state.2.pending.length more := by
  have fits := h.fits
  have total := h.length
  have running : ¬state.2.failure.isSome := by simp [h.running]
  unfold BufferedWriter.write
  dsimp only
  rw [if_neg running]
  split
  · next room => exact ⟨content, h.wait (by omega), .waits (by omega)⟩
  next full =>
  split
  · next nothing =>
      have all : content = written := by
        rw [← h.whole, nothing, append_nil]
      subst all
      rw [nothing, length_nil] at full
      refine ⟨content ++ bytes, h.putDirectly accepts bytes,
        .puts (by rw [nothing, length_nil]; omega) (prefix_append _ _) ?_ ?_ ?_⟩
      · rw [length_append]
        omega
      · intro none
        rw [none, nil_append]
      · intro _ fit
        omega
  · next waiting =>
      -- The buffer is filled up with the front of the bytes and flushed.
      generalize cut : bytes.take (capacity - state.2.pending.length) = front
      generalize left : bytes.drop (capacity - state.2.pending.length) = rest
      have joined : front ++ rest = bytes := by rw [← cut, ← left, take_append_drop]
      have length : front.length = capacity - state.2.pending.length := by
        rw [← cut]
        exact length_take_of_le (by omega)
      have flushed := (h.wait (by omega : state.2.pending.length + front.length ≤ capacity)).flush
        accepts
      have long : capacity ≤ (written ++ front).length := by
        rw [length_append, length]
        omega
      have some : written ≠ [] := fun none =>
        waiting (append_eq_nil_iff.mp (h.whole.trans none)).2
      split
      · next failed =>
          rw [flushed.running] at failed
          cases failed
      split
      · next room =>
          have refilled := @Carries.wait _ _ _ _ _ _ _ flushed rest
            (by rw [flushed.nothing_pending, length_nil]; omega)
          rw [flushed.nothing_pending, nil_append, append_assoc, joined] at refilled
          refine ⟨written ++ front, refilled,
            .puts (by omega) (prefix_append _ _) long (fun none => absurd none some) ?_⟩
          intro alone _
          rw [eq_nil_of_length_eq_zero (by omega : front.length = 0), append_nil]
      · have direct := flushed.putDirectly accepts rest
        rw [append_assoc, joined] at direct
        refine ⟨written ++ bytes, direct,
          .puts (by omega) (prefix_append _ _) ?_ (fun none => absurd none some) ?_⟩
        · rw [← joined, ← append_assoc, length_append]
          omega
        · intro alone fit
          rw [← joined, length_append] at fit
          omega

/-- Writes that fit together leave the sink alone, by induction on the writes. -/
theorem Carries.writes_wait (accepts : Accepts put Keeps)
    (h : Carries capacity Keeps state content written) {pieces : List Bytes}
    (room : state.2.pending.length + pieces.flatten.length ≤ capacity)
    : Carries capacity Keeps (pieces.foldl (BufferedWriter.write put capacity) state) content
        (written ++ pieces.flatten) := by
  induction pieces generalizing state written with
  | nil => simpa using h
  | cons piece rest ih =>
      rw [flatten_cons, length_append] at room
      obtain ⟨more, next, advance⟩ := h.write accepts piece
      cases advance with
      | waits _ =>
          rw [flatten_cons, ← append_assoc]
          refine ih next ?_
          have before := h.length
          have after := next.length
          rw [length_append] at after
          omega
      | puts full => omega

section Refuses

variable {sink : S} {failure : E} {buffer : Buffer E}

theorem flush_refused (refuses : ∀ bytes, put sink bytes = (sink, some failure))
    : (flush put (sink, buffer)).1 = sink
      ∧ (buffer.pending ≠ [] → (flush put (sink, buffer)).2.failure ≠ none) := by
  unfold flush
  split
  · next idle =>
      refine ⟨rfl, fun waiting clear => ?_⟩
      rcases idle with failed | nothing
      · rw [clear] at failed
        cases failed
      · exact waiting nothing
  · rw [refuses]
    exact ⟨rfl, fun _ clear => Option.some_ne_none _ clear⟩

/-- A write in front of a sink that refuses succeeds only if the bytes fit. -/
theorem write_refused (refuses : ∀ bytes, put sink bytes = (sink, some failure)) {bytes : Bytes}
    (succeeds : (write put capacity (sink, buffer) bytes).2.failure = none)
    : write put capacity (sink, buffer) bytes
      = (sink, { buffer with pending := buffer.pending ++ bytes }) := by
  unfold write at succeeds ⊢
  dsimp only at succeeds ⊢
  by_cases failed : buffer.failure.isSome
  · rw [if_pos failed] at succeeds
    rw [succeeds] at failed
    cases failed
  rw [if_neg failed] at succeeds ⊢
  by_cases room : bytes.length ≤ capacity - buffer.pending.length
  · rw [if_pos room]
  rw [if_neg room] at succeeds
  by_cases nothing : buffer.pending = []
  · rw [if_pos nothing, putDirectly, refuses] at succeeds
    cases succeeds
  rw [if_neg nothing] at succeeds
  -- Whatever waits cannot be flushed.
  have stuck := (@flush_refused _ _ put _ _
    { buffer with pending := buffer.pending ++ bytes.take (capacity - buffer.pending.length) }
    refuses).2 (append_ne_nil_of_left_ne_nil nothing _)
  rw [if_pos (Option.isSome_iff_ne_none.mpr stuck)] at succeeds
  exact absurd succeeds stuck

end Refuses

end BufferedWriter
