import CheckedLisp.Eval.Builtin
import CheckedLisp.Proofs.Sequencing

/-! A sink takes pieces one by one as it takes them joined, whether there is room for all of them or
the output ends in the middle of one. So what a call writes is one text. -/
namespace CheckedLisp

namespace Sink

variable {s : Sink} {k : Nat}

theorem extract_of_size_le {bytes : ByteArray} (fits : bytes.size ≤ k) : bytes.extract 0 k = bytes := by
  rw [← Nat.max_eq_left fits, ByteArray.extract_zero_max_size]

/-- What follows the first `k` bytes does not matter to them. -/
theorem extract_append_of_le {bytes more : ByteArray} (enough : k ≤ bytes.size) :
    (bytes ++ more).extract 0 k = bytes.extract 0 k := by
  rw [ByteArray.extract_append, Nat.zero_sub, Nat.sub_eq_zero_of_le enough, ByteArray.extract_same,
    ByteArray.append_empty]

theorem write_unbounded (unbounded : s.capacity = none) (text : String) :
    s.write text = (true, ⟨s.written ++ text.toUTF8, none⟩) := by
  obtain ⟨written, capacity⟩ := s
  cases unbounded
  rfl

/-- A sink with a capacity takes a text whole or in part. -/
theorem write_bounded (bounded : s.capacity = some k) (text : String) :
    s.write text = (decide (text.toUTF8.size ≤ k - s.written.size),
      ⟨s.written ++ text.toUTF8.extract 0 (k - s.written.size), some k⟩) := by
  obtain ⟨written, capacity⟩ := s
  cases bounded
  simp only [write]
  split
  · next fits => rw [decide_eq_true fits, extract_of_size_le fits]
  · next beyond => rw [decide_eq_false beyond]

theorem write_empty (s : Sink) : s.write "" = (true, s) := by
  obtain ⟨written, capacity⟩ := s
  have nothing : "".toUTF8 = ByteArray.empty := String.toByteArray_empty
  cases capacity with
  | none => rw [write_unbounded rfl, nothing, ByteArray.append_empty]
  | some k =>
    have fits : ByteArray.empty.size ≤ k - written.size := Nat.zero_le _
    rw [write_bounded rfl, nothing, decide_eq_true fits, extract_of_size_le fits, ByteArray.append_empty]

/-- The second of two texts is written unless the first did not fit. -/
theorem write_append (s : Sink) (first second : String) :
    s.write (first ++ second) = match s.write first with
      | (true, s) => s.write second
      | (false, s) => (false, s) := by
  have bytes : (first ++ second).toUTF8 = first.toUTF8 ++ second.toUTF8 := String.toByteArray_append
  obtain ⟨written, capacity⟩ := s
  cases capacity with
  | none =>
    rw [write_unbounded rfl, write_unbounded rfl, bytes]
    dsimp only
    rw [write_unbounded rfl, ByteArray.append_assoc]
  | some k =>
    rw [write_bounded rfl, write_bounded rfl, bytes]
    by_cases fits : first.toUTF8.size ≤ k - written.size
    · have room : k - (written ++ first.toUTF8).size = k - written.size - first.toUTF8.size := by
        rw [ByteArray.size_append]
        omega
      have whole : (first.toUTF8 ++ second.toUTF8).size ≤ k - written.size ↔
          second.toUTF8.size ≤ k - written.size - first.toUTF8.size := by
        rw [ByteArray.size_append]
        omega
      rw [decide_eq_true fits, extract_of_size_le fits]
      dsimp only
      rw [write_bounded rfl, room, ByteArray.extract_append, extract_of_size_le fits, Nat.zero_sub,
        ByteArray.append_assoc]
      simp only [whole]
    · have beyond : ¬(first.toUTF8 ++ second.toUTF8).size ≤ k - written.size := by
        rw [ByteArray.size_append]
        omega
      rw [decide_eq_false fits, decide_eq_false beyond, extract_append_of_le (Nat.le_of_not_le fits)]

/-- It does not matter in which pieces a text is written. -/
theorem writeEach_eq_write (s : Sink) (pieces : List String) : s.writeEach pieces = s.write (String.join pieces) := by
  induction pieces generalizing s with
  | nil => rw [writeEach, String.join_nil, write_empty]
  | cons piece pieces ih =>
    rw [writeEach, String.join_cons, write_append]
    rcases s.write piece with ⟨_ | _, sink⟩
    · rfl
    · exact ih sink

end Sink

namespace Builtin

theorem join_intersperse (separator : String) (texts : List String) :
    String.join (texts.intersperse separator) = separator.intercalate texts := by
  induction texts with
  | nil => rw [List.intersperse_nil, String.join_nil, String.intercalate_nil]
  | cons text texts ih =>
    cases texts with
    | nil =>
      rw [List.intersperse_singleton, String.join_cons, String.join_nil, String.append_empty,
        String.intercalate_singleton]
    | cons next texts =>
      rw [List.intersperse_cons_cons, String.join_cons, String.join_cons, ih, String.intercalate_cons_cons,
        String.append_assoc]

/-- What `display` writes in pieces is one text, the arguments with a space between any two. -/
theorem writeEach_pieces (s : Sink) (args : List Value) :
    s.writeEach (pieces args) = s.write (" ".intercalate (args.map Value.displayed)) := by
  rw [Sink.writeEach_eq_write, pieces, join_intersperse]

theorem write_apply (pieces : List String) (m : Machine) :
    write pieces m =
      if (m.sink.write (String.join pieces)).1 then .ok .unit { m with sink := (m.sink.write (String.join pieces)).2 }
      else .error (.fault .outputFull) { m with sink := (m.sink.write (String.join pieces)).2 } := by
  rw [write, Sequencing.bind_apply, Sequencing.modifyGet_apply, Sink.writeEach_eq_write]
  cases (m.sink.write (String.join pieces)).1 <;> rfl

end Builtin

end CheckedLisp
