import SkySdk.Sys.Path

/-!
# The path of the process from its two parts

`copyPart_cases` says what a call does on a target that is split at its last slash. The parts are
those of the target, so they are put together to the path where the target is the path, and to the
cut path where it is not: without an error, if there is more than one slash in it.
-/

set_option autoImplicit false

namespace Sky

open Base

variable {path : CStr} {pathMax : Nat} {s dir name buf : List UInt8} {len : UInt32} {c : UInt8}

/-! ## The last slash -/

theorem strrchr_none : ∀ {s : List UInt8}, c ∉ s → strrchr c s = none
  | [], _ => rfl
  | x :: s, h => by
    rw [strrchr, strrchr_none fun hs => h (List.mem_cons_of_mem x hs)]
    exact if_neg fun hx => h (by rw [hx]; exact List.mem_cons_self)

theorem strrchr_append (h : c ∉ name) : ∀ dir : List UInt8,
    strrchr c (dir ++ c :: name) = some dir.length
  | [] => by
    rw [List.nil_append, strrchr, strrchr_none h]
    exact if_pos rfl
  | x :: dir => by
    rw [List.cons_append, strrchr, strrchr_append h dir]
    rfl

theorem exists_last : ∀ {s : List UInt8}, c ∈ s → ∃ dir name, s = dir ++ c :: name ∧ c ∉ name
  | [], h => absurd h List.not_mem_nil
  | x :: s, h => by
    by_cases hs : c ∈ s
    · obtain ⟨dir, name, rfl, hname⟩ := exists_last hs
      exact ⟨x :: dir, name, rfl, hname⟩
    · obtain rfl : c = x := (List.mem_cons.1 h).resolve_right hs
      exact ⟨[], s, rfl, hs⟩

/-- Of more than one slash the last is not the first character. -/
theorem split_of_two (h : 2 ≤ s.count 47) :
    ∃ dir name, s = dir ++ 47 :: name ∧ 47 ∉ name ∧ dir ≠ [] := by
  have hmem : (47 : UInt8) ∈ s := List.count_pos_iff.1 (by omega)
  obtain ⟨dir, name, rfl, hname⟩ := exists_last hmem
  refine ⟨dir, name, rfl, hname, ?_⟩
  rintro rfl
  rw [List.nil_append, List.count_cons_self, List.count_eq_zero.2 hname] at h
  omega

/-- A single slash at the start, or none. -/
theorem strrchr_of_one (hs : s = [] ∨ s.head? = some 47) (h : s.count 47 ≤ 1) :
    strrchr 47 s = none ∨ strrchr 47 s = some 0 := by
  cases s with
  | nil => exact .inl rfl
  | cons x s =>
    rw [List.head?_cons, Option.some.injEq] at hs
    obtain rfl : x = 47 := hs.resolve_left fun hn => by cases hn
    have hnone : (47 : UInt8) ∉ s := by
      rw [List.count_cons_self] at h
      exact List.count_eq_zero.1 (by omega)
    exact .inr (strrchr_append hnone [])

/-! ## One call -/

/-- The call has returned the length of `text` and written `text` and a NUL. -/
structure Gives (text buf : List UInt8) (len : UInt32) (r : Int) (out : List UInt8) : Prop where
  result : r = text.length
  fits : text.length + 1 ≤ len.toNat
  written : out = text ++ 0 :: buf.drop (text.length + 1)

/-- The call has failed and the buffer is as before. -/
def Fails (buf : List UInt8) (r : Int) (out : List UInt8) : Prop := r < 0 ∧ out = buf

section
variable {part : Nat → Nat → Nat × Nat} {text target : List UInt8} {start : Nat}

/-- On a target with a slash behind its start: the part is written if there is room for it. -/
theorem copyPart_split (hlink : readlink path pathMax = some target)
    (hslash : strrchr 47 target = some dir.length) (hdir : dir ≠ []) (hmax : target.length ≤ intMax)
    (hpart : part dir.length target.length = (start, text.length))
    (htext : (target.drop start).take text.length = text) (hbuf : len.toNat ≤ buf.length) :
    ∃ r out, copyPart part pathMax path (some buf) len = .ok (r, some out) ∧
      if 1 < len ∧ text.length + 1 ≤ len.toNat then Gives text buf len r out
      else Fails buf r out := by
  have hpos : dir.length ≠ 0 := fun h => hdir (List.length_eq_zero_iff.1 h)
  unfold copyPart
  by_cases hlen : 1 < len
  · simp only [gt_iff_lt, if_pos hlen, hlink, intOf, if_pos hmax, ok_bind, hslash, if_neg hpos,
      hpart]
    by_cases hroom : text.length + 1 ≤ len.toNat
    · have hrun := writeRun_append text [] buf (by omega)
      obtain ⟨x, rest, hrest⟩ := List.exists_cons_of_ne_nil (List.ne_nil_of_length_pos
        (l := buf.drop text.length) (by rw [List.length_drop]; omega))
      have hnul : buf.drop (text.length + 1) = rest := by
        rw [← List.drop_drop, hrest]
        rfl
      rw [List.nil_append, List.nil_append, List.length_nil, hrest] at hrun
      rw [if_neg (Nat.not_lt.2 hroom), htext, hrun, ok_bind, writeAt_append]
      refine ⟨_, _, rfl, ?_⟩
      rw [if_pos ⟨hlen, hroom⟩]
      exact ⟨rfl, hroom, by rw [hnul]⟩
    · rw [if_pos (Nat.lt_of_not_le hroom)]
      refine ⟨-5, buf, rfl, ?_⟩
      rw [if_neg fun h => hroom h.2]
      exact ⟨by decide, rfl⟩
  · refine ⟨-2, buf, if_neg hlen, ?_⟩
    rw [if_neg fun h => hlen h.1]
    exact ⟨by decide, rfl⟩

/-- On a target without such a slash, or without a target. -/
theorem copyPart_whole (hlink : ∀ target, readlink path pathMax = some target →
      target.length ≤ intMax ∧ (strrchr 47 target = none ∨ strrchr 47 target = some 0)) :
    ∃ r, copyPart part pathMax path (some buf) len = .ok (r, some buf) ∧ r < 0 := by
  unfold copyPart
  by_cases hlen : 1 < len
  · simp only [gt_iff_lt, if_pos hlen]
    cases hread : readlink path pathMax with
    | none => exact ⟨-3, rfl, by decide⟩
    | some target =>
      obtain ⟨hmax, hslash⟩ := hlink target hread
      simp only [intOf, if_pos hmax, ok_bind]
      rcases hslash with hs | hs
      · rw [hs]
        exact ⟨-4, rfl, by decide⟩
      · rw [hs]
        exact ⟨-4, rfl, by decide⟩
  · exact ⟨-2, if_neg hlen, by decide⟩

/-- On a target that is too long for an `int`. -/
theorem copyPart_overflows (hlink : readlink path pathMax = some target) (hlen : 1 < len)
    (hmax : intMax < target.length) :
    copyPart part pathMax path (some buf) len = .error .overflow := by
  unfold copyPart
  simp only [gt_iff_lt, if_pos hlen, hlink, intOf, if_neg (Nat.not_le.2 hmax)]
  rfl

end

/-! ## Both calls -/

/-- What both functions do on a target that is split at its last slash. -/
theorem calls_split (hlink : readlink path pathMax = some (dir ++ 47 :: name)) (hname : 47 ∉ name)
    (hdir : dir ≠ []) (hmax : (dir ++ 47 :: name).length ≤ intMax)
    (hbuf : len.toNat ≤ buf.length) :
    (∃ r out, skySysGetProcessDirectory pathMax path (some buf) len = .ok (r, some out) ∧
      if 1 < len ∧ dir.length + 1 ≤ len.toNat then Gives dir buf len r out else Fails buf r out) ∧
    ∃ r out, skySysGetProcessName pathMax path (some buf) len = .ok (r, some out) ∧
      if 1 < len ∧ name.length + 1 ≤ len.toNat then Gives name buf len r out
      else Fails buf r out := by
  have hslash := strrchr_append hname dir
  have hrest : (dir ++ 47 :: name).length - (dir.length + 1) = name.length := by
    rw [List.length_append, List.length_cons]
    omega
  constructor
  · refine copyPart_split hlink hslash hdir hmax rfl ?_ hbuf
    rw [List.drop_zero, List.take_left]
  · refine copyPart_split hlink hslash hdir hmax (congrArg _ hrest) ?_ hbuf
    rw [← List.drop_drop, List.drop_left, List.drop_succ_cons, List.drop_zero, List.take_length]

/-- For all buffers: no call stops, a call that fails leaves its buffer as it was, one that does not
has written a text, and those of two calls that do not are put together to the path. On a path of at
most `SKY_PATH_MAX` characters a call only fails if its buffer is too small. -/
def Recombines (pathMax : Nat) (path : CStr) : Prop :=
  ∀ (len len' : UInt32) (buf buf' : List UInt8), len.toNat ≤ buf.length →
    len'.toNat ≤ buf'.length → ∃ r out r' out',
      skySysGetProcessDirectory pathMax path (some buf) len = .ok (r, some out) ∧
      skySysGetProcessName pathMax path (some buf') len' = .ok (r', some out') ∧
      (Fails buf r out ∨ ∃ dir, Gives dir buf len r out) ∧
      (Fails buf' r' out' ∨ ∃ name, Gives name buf' len' r' out') ∧
      (0 ≤ r → 0 ≤ r' → ∃ dir name, Gives dir buf len r out ∧ Gives name buf' len' r' out' ∧
        dir ++ 47 :: name = path.bytes ∧ 47 ∉ name) ∧
      ∀ dir name, path.bytes = dir ++ 47 :: name → 47 ∉ name → path.length ≤ pathMax →
        (1 < len → dir.length + 1 ≤ len.toNat → 0 ≤ r) ∧
        (1 < len' → name.length + 1 ≤ len'.toNat → 0 ≤ r')

theorem Gives.nonneg {text out : List UInt8} {r : Int} (h : Gives text buf len r out) : 0 ≤ r := by
  rw [h.result]
  exact Int.natCast_nonneg _

/-- The text of a result. -/
theorem Gives.unique {text text' out : List UInt8} {r : Int} (h : Gives text buf len r out)
    (h' : Gives text' buf len r out) : text = text' := by
  have hlen : text.length = text'.length := Int.ofNat.inj (h.result.symm.trans h'.result)
  exact (List.append_inj (h.written.symm.trans h'.written) hlen).1

theorem split_unique {dir' name' : List UInt8} (h : dir ++ 47 :: name = dir' ++ 47 :: name')
    (hname : 47 ∉ name) (hname' : 47 ∉ name') : dir = dir' ∧ name = name' := by
  have hs := strrchr_append hname dir
  rw [h, strrchr_append hname' dir'] at hs
  obtain ⟨hd, hn⟩ := List.append_inj h (Option.some.inj hs).symm
  exact ⟨hd, List.tail_eq_of_cons_eq hn⟩

theorem readlink_eq (h : pathMax ≠ 0) : readlink path pathMax = some (path.bytes.take pathMax) :=
  if_neg h

/-- The whole path. -/
theorem recombines_of_le (hslashes : 2 ≤ path.bytes.count 47) (hmax : path.length ≤ intMax)
    (hle : path.length ≤ pathMax) : Recombines pathMax path := by
  have hpath : path.bytes.take pathMax = path.bytes := List.take_of_length_le hle
  have hcount := List.count_le_length (a := (47 : UInt8)) (l := path.bytes)
  have hpos : pathMax ≠ 0 := by
    rintro rfl
    exact absurd (Nat.le_trans hslashes hcount) (Nat.not_le.2 (Nat.lt_of_le_of_lt hle (by decide)))
  obtain ⟨dir, name, hsplit, hname, hdir⟩ := split_of_two hslashes
  have hlink : readlink path pathMax = some (dir ++ 47 :: name) := by
    rw [readlink_eq hpos, hpath, hsplit]
  have hmax' : (dir ++ 47 :: name).length ≤ intMax := by
    rw [← hsplit]
    exact hmax
  intro len len' buf buf' hbuf hbuf'
  obtain ⟨⟨r, out, hcall, hr⟩, -⟩ := calls_split hlink hname hdir hmax' hbuf
  obtain ⟨-, r', out', hcall', hr'⟩ := calls_split hlink hname hdir hmax' hbuf'
  refine ⟨r, out, r', out', hcall, hcall', ?_, ?_, ?_, ?_⟩
  · split at hr
    · exact .inr ⟨dir, hr⟩
    · exact .inl hr
  · split at hr'
    · exact .inr ⟨name, hr'⟩
    · exact .inl hr'
  · intro hpos hpos'
    split at hr
    · split at hr'
      · exact ⟨dir, name, hr, hr', hsplit.symm, hname⟩
      · exact absurd hr'.1 (Int.not_lt.2 hpos')
    · exact absurd hr.1 (Int.not_lt.2 hpos)
  · intro dir' name' hsplit' hname' _
    obtain ⟨rfl, rfl⟩ := split_unique (hsplit.symm.trans hsplit') hname hname'
    refine ⟨fun hlen hroom => ?_, fun hlen hroom => ?_⟩
    · rw [if_pos ⟨hlen, hroom⟩] at hr
      exact hr.nonneg
    · rw [if_pos ⟨hlen, hroom⟩] at hr'
      exact hr'.nonneg

/-- A cut path with which both functions fail. -/
theorem recombines_of_one (habs : path.bytes.head? = some 47)
    (hmax : min path.length pathMax ≤ intMax)
    (hcut : pathMax < path.length) (hone : (path.bytes.take pathMax).count 47 ≤ 1) :
    Recombines pathMax path := by
  have hlink : ∀ target, readlink path pathMax = some target → target.length ≤ intMax ∧
      (strrchr 47 target = none ∨ strrchr 47 target = some 0) := by
    intro target htarget
    unfold readlink at htarget
    split at htarget
    · cases htarget
    · cases htarget
      rw [List.length_take, Nat.min_comm]
      refine ⟨hmax, strrchr_of_one ?_ hone⟩
      cases hp : path.bytes with
      | nil => exact .inl List.take_nil
      | cons x s =>
        rename_i hpos
        rw [hp] at habs
        obtain ⟨n, rfl⟩ := Nat.exists_eq_succ_of_ne_zero hpos
        exact .inr habs
  intro len len' buf buf' _ _
  obtain ⟨r, hcall, hr⟩ := copyPart_whole hlink
  obtain ⟨r', hcall', hr'⟩ := copyPart_whole hlink
  refine ⟨r, buf, r', buf', hcall, hcall', .inl ⟨hr, rfl⟩, .inl ⟨hr', rfl⟩, ?_, ?_⟩
  · intro hpos
    exact absurd hr (Int.not_lt.2 hpos)
  · intro _ _ _ _ hle
    exact absurd hcut (Nat.not_lt.2 hle)

/-- A target that does not fit into an `int`. -/
theorem not_recombines_of_long (hmax : intMax < min path.length pathMax) :
    ¬ Recombines pathMax path := by
  intro h
  have hpos : pathMax ≠ 0 := by
    rintro rfl
    rw [Nat.min_zero] at hmax
    exact absurd hmax (Nat.not_lt_zero _)
  obtain ⟨r, out, r', out', hcall, -⟩ := h 2 2 [0, 0] [0, 0] (by decide) (by decide)
  have hover : skySysGetProcessDirectory pathMax path (some [0, 0]) 2 = .error .overflow := by
    refine copyPart_overflows (readlink_eq hpos) (by decide) ?_
    rw [List.length_take, Nat.min_comm]
    exact hmax
  rw [hover] at hcall
  cases hcall

/-- A cut path that has two parts of its own. -/
theorem not_recombines_of_two (hmax : min path.length pathMax ≤ intMax)
    (hcut : pathMax < path.length) (htwo : 2 ≤ (path.bytes.take pathMax).count 47) :
    ¬ Recombines pathMax path := by
  intro h
  have hlong : (path.bytes.take pathMax).length ≤ intMax := by
    rw [List.length_take, Nat.min_comm]
    exact hmax
  obtain ⟨dir, name, hsplit, hname, hdir⟩ := split_of_two htwo
  have hpos : pathMax ≠ 0 := by
    rintro rfl
    rw [List.take_zero] at htwo
    exact absurd htwo (by decide)
  have hlink : readlink path pathMax = some (dir ++ 47 :: name) := by
    rw [readlink_eq hpos, hsplit]
  rw [hsplit] at hlong
  -- buffers with room for the whole target
  obtain ⟨n, hn⟩ : ∃ n, n = (dir ++ 47 :: name).length := ⟨_, rfl⟩
  have hlen : (UInt32.ofNat (n + 1)).toNat = n + 1 := by
    unfold intMax at hlong
    exact toNat_ofNat_of_lt (by omega)
  have hbuf : (UInt32.ofNat (n + 1)).toNat ≤ (List.replicate (n + 1) (0 : UInt8)).length :=
    Nat.le_of_eq (hlen.trans List.length_replicate.symm)
  obtain ⟨⟨r, out, hcall, hr⟩, r', out', hcall', hr'⟩ :=
    calls_split hlink hname hdir hlong hbuf
  have hsize : n = dir.length + (name.length + 1) := by
    rw [hn, List.length_append, List.length_cons]
  have hone : (1 : UInt32) < .ofNat (n + 1) := by
    rw [UInt32.lt_iff_toNat_lt, hlen]
    change 1 < n + 1
    omega
  rw [if_pos ⟨hone, by omega⟩] at hr
  rw [if_pos ⟨hone, by omega⟩] at hr'
  obtain ⟨r2, out2, r2', out2', hcall2, hcall2', -, -, hparts, -⟩ := h _ _ _ _ hbuf hbuf
  rw [hcall] at hcall2
  cases hcall2
  rw [hcall'] at hcall2'
  cases hcall2'
  obtain ⟨dir2, name2, hg, hg', hpath, -⟩ := hparts hr.nonneg hr'.nonneg
  rw [hg.unique hr, hg'.unique hr', ← hsplit] at hpath
  have hsame := congrArg List.length hpath
  rw [List.length_take] at hsame
  unfold CStr.length at hcut
  omega

/-- For every `SKY_PATH_MAX` and every absolute path with two slashes: both functions do what they
should on all buffers if and only if what is read of the path has an `int` length, and is the whole
path or has one slash at most. -/
theorem recombines_iff (pathMax : Nat) (path : CStr) (habs : path.bytes.head? = some 47)
    (hslashes : 2 ≤ path.bytes.count 47) : Recombines pathMax path ↔
      min path.length pathMax ≤ intMax ∧
        (path.length ≤ pathMax ∨ (path.bytes.take pathMax).count 47 ≤ 1) := by
  constructor
  · intro h
    have hmax : min path.length pathMax ≤ intMax :=
      Nat.le_of_not_lt fun hlong => not_recombines_of_long hlong h
    refine ⟨hmax, ?_⟩
    rcases Nat.lt_or_ge pathMax path.length with hcut | hle
    · exact .inr (Nat.le_of_not_lt fun htwo => not_recombines_of_two hmax hcut htwo h)
    · exact .inl hle
  · intro h
    obtain ⟨hmax, hle | hone⟩ := h
    · rw [Nat.min_eq_left hle] at hmax
      exact recombines_of_le hslashes hmax hle
    · rcases Nat.lt_or_ge pathMax path.length with hcut | hle
      · exact recombines_of_one habs hmax hcut hone
      · rw [Nat.min_eq_left hle] at hmax
        exact recombines_of_le hslashes hmax hle

theorem shortPath_noNul : (0 : UInt8) ∉ [47, 97, 47, 98, 99] := by decide

/-- `"/a/bc"` -/
def shortPath : CStr := ⟨[47, 97, 47, 98, 99], shortPath_noNul⟩

theorem recombines_shortPath : Recombines 5 shortPath :=
  (recombines_iff 5 shortPath rfl (by decide)).2 ⟨by decide, .inl (by decide)⟩

/-- Cut to four characters, the directory is `"/a"` and the name `"b"`. -/
theorem not_recombines_shortPath : ¬ Recombines 4 shortPath ∧
    skySysGetProcessDirectory 4 shortPath (some [1, 1, 1, 1]) 4 = .ok (2, some [47, 97, 0, 1]) ∧
    skySysGetProcessName 4 shortPath (some [1, 1, 1, 1]) 4 = .ok (1, some [98, 0, 1, 1]) :=
  ⟨not_recombines_of_two (by decide) (by decide) (by decide), by decide, by decide⟩

end Sky
