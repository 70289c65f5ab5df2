import SkySdk.Debug.Defs

/-!
# The bounds of `sky_log_print_buf`

A round at offset `d` writes up to `d + 3` and the next one is at `d + 3`, so the output is filled
with the dump of what was read (`printLoop_fits`) as long as four characters are left. The bound
that is checked before a round asks for one: byte 341 goes to offset 1023 and beyond the end
(`printLoop_overruns`).
-/

set_option autoImplicit false

namespace Sky.Debug

open Base

variable {buf : List UInt8} {len : UInt32} {c : UInt8}

/-- Two lower-case digits and a space for each byte. -/
def dump (xs : List UInt8) : List UInt8 :=
  xs.flatMap fun c => [hexChar (c.toNat / 16), hexChar (c.toNat % 16), 32]

theorem length_dump (xs : List UInt8) : (dump xs).length = 3 * xs.length := by
  induction xs with
  | nil => rfl
  | cons x xs ih =>
    rw [dump, List.flatMap_cons, List.length_append, ← dump, ih]
    change 3 + 3 * xs.length = 3 * (xs.length + 1)
    omega

theorem dump_noNul (xs : List UInt8) : 0 ∉ dump xs := by
  have hchar : ∀ d < 16, hexChar d ≠ 0 := by decide
  intro h
  obtain ⟨c, -, hc⟩ := List.mem_flatMap.1 h
  have hhigh : c.toNat / 16 < 16 := Nat.div_lt_of_lt_mul c.toNat_lt
  have hlow : c.toNat % 16 < 16 := Nat.mod_lt c.toNat (by decide)
  simp only [List.mem_cons, List.not_mem_nil, or_false] at hc
  rcases hc with hc | hc | hc
  · exact hchar _ hhigh hc.symm
  · exact hchar _ hlow hc.symm
  · cases hc

theorem printedByte_eq (c : UInt8) : printedByte c = (dump [c] ++ [0]).map some := by
  have hlt : c.toUInt32.toNat < 256 := c.toNat_lt
  rw [printedByte, print02x_of_lt hlt]
  rfl

/-! ## The loop -/

theorem printLoop_round {n : Nat} {s : List UInt8} {pre post : List (Option UInt8)}
    (hpost : 4 ≤ post.length) (hsize : pre.length < outputSize) :
    printLoop (n + 1) (c :: s) pre.length (pre ++ post) =
      printLoop n s (pre ++ (dump [c]).map some).length
        (pre ++ (dump [c]).map some ++ some 0 :: post.drop 4) := by
  have hrun := writeRun_append (printedByte c) pre post (by rw [printedByte_eq]; exact hpost)
  rw [printedByte_eq] at hrun
  rw [printLoop, if_pos hsize, readAt_of_get? rfl, ok_bind, printedByte_eq, hrun, ok_bind,
    List.length_append, List.map_append, List.append_assoc, List.append_assoc, List.append_assoc]
  rfl

/-- As long as the dump leaves a place for the NUL, the rounds write it. -/
theorem printLoop_fits (n : Nat) : ∀ (xs s : List UInt8) (pre post : List (Option UInt8)),
    pre.length + post.length = outputSize → pre.length + 3 * xs.length < outputSize →
    ∃ post', printLoop (xs.length + n) (xs ++ s) pre.length (pre ++ post) =
      printLoop n s (pre.length + 3 * xs.length) (pre ++ (dump xs).map some ++ post') ∧
      pre.length + 3 * xs.length + post'.length = outputSize
  | [], s, pre, post, hlen, _ => by
    refine ⟨post, ?_, hlen⟩
    rw [List.length_nil, Nat.zero_add, Nat.mul_zero, Nat.add_zero, dump, List.flatMap_nil,
      List.map_nil, List.append_nil, List.nil_append]
  | c :: xs, s, pre, post, hlen, hfit => by
    unfold outputSize at hlen hfit
    rw [List.length_cons] at hfit
    have hpre : (pre ++ (dump [c]).map some).length = pre.length + 3 := by
      rw [List.length_append, List.length_map, length_dump]
      rfl
    have hdump : dump (c :: xs) = dump [c] ++ dump xs := rfl
    obtain ⟨post', hrest, hlen'⟩ := printLoop_fits n xs s (pre ++ (dump [c]).map some)
      (some 0 :: post.drop 4)
      (by rw [hpre, List.length_cons, List.length_drop]; unfold outputSize; omega)
      (by rw [hpre]; unfold outputSize; omega)
    rw [hpre] at hrest hlen'
    refine ⟨post', ?_, ?_⟩
    · rw [List.cons_append, List.length_cons, Nat.add_right_comm,
        printLoop_round (by omega) (by unfold outputSize; omega), hpre, hrest, hdump,
        List.map_append, List.append_assoc pre, Nat.add_assoc pre.length, Nat.mul_succ,
        Nat.add_comm 3]
    · rw [List.length_cons]
      omega

/-- The round at offset 1023 writes behind the end. -/
theorem printLoop_overruns {n : Nat} {s : List UInt8} {output : List (Option UInt8)}
    (hlen : output.length = outputSize) :
    printLoop (n + 1) (c :: s) 1023 output = .error .outOfBounds := by
  have hrun : writeRun output 1023 (printedByte c) = .error .outOfBounds := by
    rw [printedByte_eq]
    refine writeRun_outside _ _ _ ?_ ?_
    · intro h
      cases h
    · rw [hlen, List.length_map, List.length_append, length_dump]
      exact Nat.lt_add_left 2 (by decide : (1024 : Nat) < 1025)
  rw [printLoop, if_pos (by decide), readAt_of_get? rfl, ok_bind, hrun]
  rfl

/-! ## The call -/

theorem printLoop_start (n : Nat) (xs s : List UInt8) (hfit : 3 * xs.length < outputSize) :
    ∃ post, printLoop (xs.length + n) (xs ++ s) 0 (.replicate outputSize none) =
      printLoop n s (3 * xs.length) ((dump xs).map some ++ post) ∧
      3 * xs.length + post.length = outputSize := by
  have hlen : ([] : List (Option UInt8)).length +
      (List.replicate outputSize (none : Option UInt8)).length = outputSize := by
    rw [List.length_replicate]
    rfl
  obtain ⟨post, hloop, hpost⟩ := printLoop_fits n xs s [] (.replicate outputSize none) hlen
    (by rw [List.length_nil, Nat.zero_add]; exact hfit)
  rw [List.length_nil, Nat.zero_add] at hloop hpost
  exact ⟨post, hloop, hpost⟩

/-- What a text is printed to. -/
def printed (background : Bool) (text : List UInt8) : Printed :=
  if background then .syslog (text ++ [10]) else .stdout (text ++ [10])

theorem printBuf_fits (background : Bool) (hlen : len.toNat ≤ buf.length)
    (hfit : 3 * len.toNat < outputSize) :
    skyLogPrintBuf background buf len =
      .ok (0, printed background (dump (buf.take len.toNat))) := by
  have htake : (buf.take len.toNat).length = len.toNat := List.length_take_of_le hlen
  obtain ⟨post, hloop, hpost⟩ := printLoop_start 0 (buf.take len.toNat) (buf.drop len.toNat)
    (by rw [htake]; exact hfit)
  rw [htake, List.take_append_drop] at hloop
  rw [htake] at hpost
  obtain ⟨x, post, rfl⟩ := List.exists_cons_of_ne_nil (List.ne_nil_of_length_pos
    (l := post) (by omega))
  have hd : 3 * len.toNat = ((dump (buf.take len.toNat)).map some).length := by
    rw [List.length_map, length_dump, htake]
  have hnul : writeAt ((dump (buf.take len.toNat)).map some ++ x :: post) (3 * len.toNat)
      (some 0) = .ok ((dump (buf.take len.toNat)).map some ++ some 0 :: post) := by
    rw [hd]
    exact writeAt_append _ _ _ _
  rw [Nat.add_zero] at hloop
  rw [skyLogPrintBuf, hloop]
  change (writeAt _ _ _ >>= _) = _
  rw [hnul, ok_bind, CStr.read_append _ (dump_noNul _), ok_bind]
  cases background <;> rfl

theorem printBuf_overruns (background : Bool) (hlen : len.toNat ≤ buf.length)
    (hfull : outputSize ≤ 3 * len.toNat) :
    skyLogPrintBuf background buf len = .error .outOfBounds := by
  unfold outputSize at hfull
  have htake : (buf.take 341).length = 341 := List.length_take_of_le (by omega)
  obtain ⟨c, s, hs⟩ := List.exists_cons_of_ne_nil (List.ne_nil_of_length_pos
    (l := buf.drop 341) (by rw [List.length_drop]; omega))
  obtain ⟨n, hn⟩ : ∃ n, len.toNat = 341 + (n + 1) := ⟨len.toNat - 342, by omega⟩
  obtain ⟨post, hloop, hpost⟩ := printLoop_start (n + 1) (buf.take 341) (buf.drop 341)
    (by rw [htake]; decide)
  rw [htake, List.take_append_drop, ← hn, hs, show 3 * 341 = 1023 from rfl] at hloop
  rw [htake] at hpost
  rw [printLoop_overruns] at hloop
  · rw [skyLogPrintBuf, hloop]
    rfl
  · rw [List.length_append, List.length_map, length_dump, htake]
    exact hpost

/-- Every write is to the output, and the text is the dump of the start of the buffer, all of it if
its dump is shorter than the output. -/
def PrintsDump (background : Bool) (buf : List UInt8) (len : UInt32) : Prop :=
  ∃ k ≤ len.toNat, skyLogPrintBuf background buf len =
      .ok (0, printed background (dump (buf.take k))) ∧
    (3 * len.toNat < 1024 → k = len.toNat)

/-- For every buffer and every length that it has: the writes stay in the output and the dump is
printed if and only if 3 `len` is below 1024. -/
theorem printsDump_iff (background : Bool) (buf : List UInt8) (len : UInt32)
    (hlen : len.toNat ≤ buf.length) :
    PrintsDump background buf len ↔ 3 * len.toNat < 1024 := by
  constructor
  · intro h
    obtain ⟨k, -, hcall, -⟩ := h
    refine Nat.lt_of_not_le fun hfull => ?_
    rw [printBuf_overruns background hlen hfull] at hcall
    cases hcall
  · intro hfit
    exact ⟨len.toNat, Nat.le_refl _, printBuf_fits background hlen hfit, fun _ => rfl⟩

theorem printsDump_text : PrintsDump false [0x0a, 0xff] 2 :=
  (printsDump_iff false [0x0a, 0xff] 2 (by decide)).2 (by decide)

/-- 342 zeros. -/
theorem printBuf_overflows : ¬ PrintsDump false (.replicate 342 0) 342 ∧
    skyLogPrintBuf false (.replicate 342 0) 342 = .error .outOfBounds := by
  have hfault : skyLogPrintBuf false (.replicate 342 0) 342 = .error .outOfBounds :=
    printBuf_overruns false (Nat.le_of_eq List.length_replicate.symm) (by decide)
  refine ⟨?_, hfault⟩
  intro h
  obtain ⟨k, -, hcall, -⟩ := h
  rw [hfault] at hcall
  cases hcall

end Sky.Debug
