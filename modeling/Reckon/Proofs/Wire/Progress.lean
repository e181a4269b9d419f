/- Reckon.Proofs.Wire.Progress — reading a stream takes all of it

However a read ends, unless it finds the stream closed it takes the length prefix and
perhaps more (`headerSize_le_length_taken`), and the next read begins where it stopped.  So
reading goes on for at most a quarter as many reads as there are bytes, then finds the
stream closed, and no byte is skipped or taken twice (`Exhausts`).  No fewer reads are
enough: of zeros, every read takes its prefix and nothing else.
-/
import Reckon.Proofs.Wire.Outcome

namespace Reckon.Wire
set_option autoImplicit false

/-! ## One read -/

/-- The part of a stream that a read takes off its front. -/
def taken (stream : Bytes) : Bytes := stream.take (stream.length - (read stream).2.length)

/-- What a read takes and what it leaves are the stream. -/
theorem taken_append (stream : Bytes) : taken stream ++ (read stream).2 = stream := by
  obtain ⟨front, whole⟩ := read_suffix stream
  have front_eq : taken stream = front := by
    unfold taken
    generalize (read stream).2 = rest at whole
    subst whole
    simp
  rw [front_eq, whole]

/-- A read that does not find the stream closed takes the length prefix at least. -/
theorem length_rest_add_le {stream : Bytes} (opened : (read stream).1 ≠ .error .closed) :
    (read stream).2.length + headerSize ≤ stream.length := by
  have outcome := outcome_read stream
  generalize (read stream).1 = result, (read stream).2 = rest at outcome opened
  cases outcome with
  | closed short => exact absurd rfl opened
  | refused narrow outside => simp only [List.length_append, length_bigEndian]; omega
  | cutOff within short => simp only [List.length_append, List.length_nil, length_bigEndian]; omega
  | taken within => simp only [frame, List.length_append, length_bigEndian]; omega

theorem headerSize_le_length_taken {stream : Bytes} (opened : (read stream).1 ≠ .error .closed) :
    headerSize ≤ (taken stream).length := by
  have whole := congrArg List.length (taken_append stream)
  have least := length_rest_add_le opened
  rw [List.length_append] at whole
  omega

/-- A read that finds the stream closed takes what there is. -/
theorem taken_of_closed {stream : Bytes} (closed : (read stream).1 = .error .closed) :
    taken stream = stream := by
  have short := (read_eq_closed_iff stream).mp closed
  simp [taken, (Outcome.closed short).read]

/-! ## All reads -/

/-- Something of what is left at the first points of reading: the stream comes first, then what
its first read leaves. -/
theorem map_afterReads_succ {α : Type} (of : Bytes → α) (stream : Bytes) (count : Nat) :
    ((List.range (count + 1)).map fun index => of (afterReads index stream)) =
      of stream :: (List.range count).map fun index => of (afterReads index (read stream).2) := by
  rw [List.range_succ_eq_map, List.map_cons, List.map_map]
  simp only [Function.comp_def, Nat.succ_eq_add_one, afterReads_succ]
  rfl

/-- So many reads of a stream end with something else, and the one behind them finds it closed;
together they take all of it. -/
structure Exhausts (stream : Bytes) (count : Nat) : Prop where
  few : count * headerSize ≤ stream.length
  opened : ∀ index < count, (read (afterReads index stream)).1 ≠ .error .closed
  closed : (read (afterReads count stream)).1 = .error .closed
  answers : readAll stream =
    ((List.range count).map fun index => (read (afterReads index stream)).1) ++ [.error .closed]
  whole : ((List.range (count + 1)).map fun index => taken (afterReads index stream)).flatten =
    stream

theorem exhausts_zero {stream : Bytes} (closed : (read stream).1 = .error .closed) :
    Exhausts stream 0 where
  few := by omega
  opened := nofun
  closed := closed
  answers := readAll_of_closed (Prod.ext closed rfl)
  whole := by simp [afterReads, taken_of_closed closed]

/-- One read more, in front. -/
theorem Exhausts.succ {stream : Bytes} {count : Nat} (exhausts : Exhausts (read stream).2 count)
    (opened : (read stream).1 ≠ .error .closed) : Exhausts stream (count + 1) where
  few := by
    have least := length_rest_add_le opened
    have few := exhausts.few
    rw [Nat.succ_mul]
    omega
  opened := by
    intro index before
    cases index with
    | zero => exact opened
    | succ index =>
      rw [afterReads_succ]
      exact exhausts.opened index (by omega)
  closed := by
    rw [afterReads_succ]
    exact exhausts.closed
  answers := by
    have first : readAll stream = (read stream).1 :: readAll (read stream).2 :=
      readAll_of_read rfl opened
    rw [first, exhausts.answers, map_afterReads_succ fun left => (read left).1, List.cons_append]
  whole := by
    rw [map_afterReads_succ taken, List.flatten_cons, exhausts.whole]
    exact taken_append stream

/-- Reading ends: every read but the last leaves less than there was. -/
theorem exists_exhausts (stream : Bytes) : ∃ count, Exhausts stream count := by
  induction length : stream.length using Nat.strong_induction_on generalizing stream with
  | _ n ih =>
  subst length
  by_cases closed : (read stream).1 = .error .closed
  · exact ⟨0, exhausts_zero closed⟩
  · obtain ⟨count, exhausts⟩ := ih _ (length_read_lt stream closed) (read stream).2 rfl
    exact ⟨count + 1, exhausts.succ closed⟩

/-- Zeros are read as one length after the other that no body has. -/
theorem length_readAll_zeros (n : Nat) : (readAll (List.replicate n 0)).length = n / 4 + 1 := by
  induction n using Nat.strong_induction_on with
  | _ n ih =>
  by_cases short : n < 4
  · have closed := (read_eq_closed_iff (List.replicate n 0)).mpr (by simpa [headerSize] using short)
    rw [readAll_of_closed (Prod.ext closed rfl), Nat.div_eq_of_lt short]
    rfl
  · obtain ⟨more, rfl⟩ : ∃ more, n = more + 4 := ⟨n - 4, by omega⟩
    have zeros : (List.replicate (more + 4) 0 : Bytes) =
        bigEndian headerSize 0 ++ List.replicate more 0 := by
      rw [Nat.add_comm, List.replicate_add]
      rfl
    have refused : Outcome (bigEndian headerSize 0 ++ List.replicate more 0)
        (.error (refusal 0)) (List.replicate more 0) := .refused (by decide) (by decide)
    have opened : (.error (refusal 0) : Except WireFault Message) ≠ .error .closed :=
      fun closed => refusal_ne_closed 0 (Except.error.inj closed)
    rw [zeros, readAll_of_read refused.read opened, List.length_cons, ih more (by omega)]
    omega

/-- **Reading a stream to its end takes all of it.**  Reading again and again what the read before
has left, whatever that came to, finds the stream closed after at most one read more than a quarter
of its bytes.  Each read before takes at least four bytes, and what the reads take, one behind the
other, is the whole stream.  No lower number of reads would do for all streams. -/
theorem reads_take_whole_stream :
    (∀ stream : Bytes, ∃ count ≤ stream.length / 4,
      (read (afterReads count stream)).1 = .error .closed ∧
        (∀ index < count, (read (afterReads index stream)).1 ≠ .error .closed ∧
          4 ≤ (taken (afterReads index stream)).length) ∧
        readAll stream =
          ((List.range count).map fun index => (read (afterReads index stream)).1) ++
            [.error .closed] ∧
        (∀ index, taken (afterReads index stream) ++ afterReads (index + 1) stream =
          afterReads index stream) ∧
        ((List.range (count + 1)).map fun index => taken (afterReads index stream)).flatten =
          stream) ∧
      ∀ n : Nat, (readAll (List.replicate n 0)).length = n / 4 + 1 := by
  refine ⟨fun stream => ?_, length_readAll_zeros⟩
  obtain ⟨count, exhausts⟩ := exists_exhausts stream
  have few : count * 4 ≤ stream.length := exhausts.few
  refine ⟨count, by omega, exhausts.closed, fun index before => ?_, exhausts.answers,
    fun index => taken_append _, exhausts.whole⟩
  have opened := exhausts.opened index before
  exact ⟨opened, headerSize_le_length_taken opened⟩

end Reckon.Wire
