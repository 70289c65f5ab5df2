import SkySdk.Rwlock.Defs
import SkySdk.Shm.Defs

/-!
# Which names get objects of their own

What the named locks and the shared memory ask the operating system for is the start of the
formatted name, as long as its buffer (`create_opens_iff`, `open_opens_iff`, `shmOpens_iff`). So two
different names lead to one object if and only if they are the same that far (`apart_iff`).
-/

set_option autoImplicit false

namespace Sky.Names

open Base

variable {nameMax size k : Nat} {before path : List UInt8} {a b name : CStr}

/-! ## Formatted names -/

/-- Different names that agree in the first `k` characters, which both of them have. -/
structure Clash (k : Nat) (a b : CStr) : Prop where
  ne : a ≠ b
  left : k ≤ a.length
  right : k ≤ b.length
  start : a.bytes.take k = b.bytes.take k

theorem formatted_eq (h : before.length ≤ size - 1) :
    formatted size before a = before ++ a.bytes.take (size - 1 - before.length) := by
  rw [formatted, List.take_append, List.take_of_length_le h]

/-- Equal starts of which one is a whole name. -/
theorem eq_of_take (h : a.bytes.take k = b.bytes.take k) (ha : a.length < k) : a = b := by
  have hlen := congrArg List.length h
  unfold CStr.length at ha
  rw [List.length_take, List.length_take] at hlen
  rw [List.take_of_length_le (by omega), List.take_of_length_le (by omega)] at h
  exact CStr.ext h

/-- Names are told apart unless they clash. -/
theorem formatted_eq_iff (h : before.length ≤ size - 1) :
    (formatted size before a = formatted size before b ↔ a = b) ↔
      ¬ Clash (size - 1 - before.length) a b := by
  rw [formatted_eq h, formatted_eq h, List.append_cancel_left_eq]
  constructor
  · intro hiff hclash
    exact hclash.ne (hiff.1 hclash.start)
  · intro hno
    refine ⟨fun hstart => ?_, fun heq => by rw [heq]⟩
    by_contra hne
    refine hno ⟨hne, ?_, ?_, hstart⟩
    · exact Nat.le_of_not_lt fun hlt => hne (eq_of_take hstart hlt)
    · exact Nat.le_of_not_lt fun hlt => hne (eq_of_take hstart.symm hlt).symm

theorem printed_pos_iff {left : List UInt8} (hb : before ≠ []) :
    ¬ (skyStrPrintf size before name left).1 ≤ 0 ↔ before.length + name.length ≤ intMax := by
  have hpos := List.length_pos_of_ne_nil hb
  unfold skyStrPrintf
  by_cases hfit : before.length + name.length ≤ intMax
  · rw [if_pos hfit]
    dsimp only
    omega
  · rw [if_neg hfit]
    simp [hfit]

theorem printed_eq {left : List UInt8} (hfit : before.length + name.length ≤ intMax) :
    (skyStrPrintf size before name left).2 = formatted size before name := by
  unfold skyStrPrintf
  rw [if_pos hfit]

/-! ## Locks -/

section
open Rwlock

/-- `sky_str_printf` prints; all other replies are as they may be. -/
def lockReplies : (o : Rwlock.Request) → o.Reply → Prop
  | .print size before name, r => ∃ left, r = skyStrPrintf size before name left
  | _, _ => True

/-- The paths that a call may open. -/
def Opens (create : Bool) (x : RwlockM Addr) (path : List UInt8) : Prop :=
  x.Asks lockReplies (.openFile path create)

/-- A name that a lock can have. -/
def LockTakes (name : CStr) : Prop := rwlockNamePattern.length + name.length ≤ intMax

/-- A call that goes on with a name that was printed. -/
theorem lock_print {o : Rwlock.Request} {f : Int × List UInt8 → RwlockM Addr}
    (ho : Rwlock.Request.print size before name ≠ o) :
    (Proc.req (.print size before name) f).Asks lockReplies o ↔
      ∃ left, (f (skyStrPrintf size before name left)).Asks lockReplies o :=
  Proc.asks_req_of_ne ho fun _ => Iff.rfl

theorem create_opens_iff : Opens true (skyRwlockCreate nameMax (some name)) path ↔
    path = pathOf nameMax name ∧ LockTakes name := by
  unfold Opens skyRwlockCreate
  simp only [request, Proc.call_bind, Proc.asks_req, reduceCtorEq, false_or]
  constructor
  · intro h
    obtain ⟨p, -, h⟩ := h
    split at h
    · exact h.elim
    · simp only [Proc.asks_req, reduceCtorEq, false_or] at h
      obtain ⟨q, -, h⟩ := h
      split at h
      · simp at h
      · obtain ⟨left, h⟩ := (lock_print (by simp)).1 h
        split at h
        · simp at h
        · rename_i hpos
          have hfit := (printed_pos_iff (by decide)).1 hpos
          rw [printed_eq hfit] at h
          rcases h with h | ⟨r, -, h⟩
          · obtain ⟨rfl, -⟩ := Rwlock.Request.openFile.inj h
            exact ⟨rfl, hfit⟩
          · cases r <;> simp at h
  · intro h
    obtain ⟨rfl, hfit⟩ := h
    refine ⟨8, trivial, ?_⟩
    rw [if_neg (by decide)]
    refine .inr ⟨16, trivial, ?_⟩
    dsimp only
    rw [if_neg (show ¬ (16 : Addr) = 0 by decide)]
    refine (lock_print (by simp)).2 ⟨[], ?_⟩
    rw [if_neg ((printed_pos_iff (by decide)).2 hfit), printed_eq hfit]
    exact .inl rfl

/-- The length of such a name is what `strlen` gives. -/
theorem skyStrLen_pos_iff (h : LockTakes name) : skyStrLen name > 0 ↔ 0 < name.length := by
  have hlt : name.length < UInt32.size := by
    unfold LockTakes intMax at h
    unfold UInt32.size
    omega
  unfold skyStrLen
  rw [gt_iff_lt, UInt32.lt_iff_toNat_lt, UInt32.toNat_ofNat_of_lt' hlt]
  rfl

theorem open_opens_iff : Opens false (skyRwlockOpen nameMax (some name)) path ↔
    path = pathOf nameMax name ∧ LockTakes name ∧ 0 < name.length := by
  unfold Opens skyRwlockOpen
  simp only [request, Proc.call_bind]
  constructor
  · intro h
    split at h
    · rename_i hlen
      obtain ⟨left, h⟩ := (lock_print (by simp)).1 h
      split at h
      · rename_i hpos
        have hfit : LockTakes name := (printed_pos_iff (by decide)).1 (Int.not_le.2 hpos)
        simp only [Proc.asks_req, reduceCtorEq, false_or] at h
        obtain ⟨p, -, h⟩ := h
        split at h
        · exact h.elim
        · rw [printed_eq hfit] at h
          rcases h with h | ⟨r, -, h⟩
          · obtain ⟨rfl, -⟩ := Rwlock.Request.openFile.inj h
            exact ⟨rfl, hfit, (skyStrLen_pos_iff hfit).1 hlen⟩
          · cases r <;> simp at h
      · exact h.elim
    · exact h.elim
  · intro h
    obtain ⟨rfl, hfit, hlen⟩ := h
    rw [if_pos ((skyStrLen_pos_iff hfit).2 hlen)]
    refine (lock_print (by simp)).2 ⟨[], ?_⟩
    have hpos : ¬ (skyStrPrintf nameMax rwlockNamePattern name []).1 ≤ 0 :=
      (printed_pos_iff (by decide)).2 hfit
    rw [if_pos (Int.not_le.1 hpos), printed_eq hfit]
    refine .inr ⟨8, trivial, ?_⟩
    dsimp only
    rw [if_neg (by decide)]
    exact .inl rfl

end

/-! ## Shared memory -/

section
open Shm

def shmReplies : (o : Shm.Request) → o.Reply → Prop
  | .print size before name, r => ∃ left, r = skyStrPrintf size before name left
  | _, _ => True

/-- The names that a call may give to `shm_open`. -/
def OpensShm (create : Bool) (x : ShmM Addr) (shmName : List UInt8) : Prop :=
  x.Asks shmReplies (.shmOpen shmName create)

/-- A name that shared memory can have. -/
def ShmTakes (nameMax : Nat) (name : CStr) : Prop :=
  (skyStrLen name).toNat ≤ nameMax - 1 ∧ shareMemNamePattern.length + name.length ≤ intMax

theorem shm_print {o : Shm.Request} {f : Int × List UInt8 → ShmM Addr}
    (ho : Shm.Request.print size before name ≠ o) :
    (Proc.req (.print size before name) f).Asks shmReplies o ↔
      ∃ left, (f (skyStrPrintf size before name left)).Asks shmReplies o :=
  Proc.asks_req_of_ne ho fun _ => Iff.rfl

/-- Nothing is opened on the way out. -/
theorem not_opens_cleanUp {create : Bool} {p : Addr} {sm : SkyHandleShareMem} :
    ¬ OpensShm create (cleanUp p sm) path := by
  unfold OpensShm cleanUp
  by_cases hptr : sm.ptr ≠ none <;> by_cases hfile : sm.file ≠ none <;>
    simp [hptr, hfile, request]

theorem not_opens_register {create : Bool} {p : Addr} {sm : SkyHandleShareMem} :
    ¬ OpensShm create (register p sm) path := by
  intro h
  unfold OpensShm register at h
  simp only [request, Proc.call_bind, Proc.asks_req, reduceCtorEq, false_or] at h
  obtain ⟨-, -, -, -, r, -, h⟩ := h
  cases r
  · simp only [Bool.false_eq_true, if_false, Proc.asks_req, reduceCtorEq, false_or] at h
    obtain ⟨-, -, h⟩ := h
    exact not_opens_cleanUp h
  · simp at h

/-- Nor once the size is known. -/
theorem not_opens_map {create : Bool} {p : Addr} {length fd : Nat}
    {sm : Option Addr → SkyHandleShareMem} {sm' : Option Addr → SkyHandleShareMem} :
    ¬ OpensShm create (Proc.req (.mmap length fd) fun ptr =>
      if ptr = none then cleanUp p (sm ptr) else register p (sm' ptr)) path := by
  intro h
  obtain ⟨ptr, -, h⟩ := Or.resolve_left h (by simp)
  cases ptr
  · exact not_opens_cleanUp h
  · exact not_opens_register h

/-- A call up to its `shm_open`, when it opens nothing after that. -/
theorem shmOpens_iff {create : Bool} {f : Addr → Int × List UInt8 → Option Nat → ShmM Addr}
    (hrest : ∀ p printed file, ¬ OpensShm create (f p printed file) path) :
    OpensShm create (if (skyStrLen name).toNat > nameMax - 1 then
        Proc.req .assertFalse fun _ => pure 0
      else Proc.req .alloc fun p =>
        if p = 0 then pure 0
        else Proc.req (.print nameSize shareMemNamePattern name) fun printed =>
          if printed.1 ≤ 0 then cleanUp p { zeroShareMem with
            cb := 152, handleType := SkyHandleType.shareMemory.code, name := printed.2 }
          else Proc.req (.shmOpen printed.2 create) (f p printed)) path ↔
      path = formatted nameSize shareMemNamePattern name ∧ ShmTakes nameMax name := by
  unfold OpensShm
  constructor
  · intro h
    split at h
    · simp at h
    · rename_i hlen
      simp only [Proc.asks_req, reduceCtorEq, false_or] at h
      obtain ⟨p, -, h⟩ := h
      split at h
      · exact h.elim
      · obtain ⟨left, h⟩ := (shm_print (by simp)).1 h
        split at h
        · exact (not_opens_cleanUp h).elim
        · rename_i hpos
          have hfit := (printed_pos_iff (by decide)).1 hpos
          rw [printed_eq hfit] at h
          rcases h with h | ⟨file, -, h⟩
          · obtain ⟨rfl, -⟩ := Shm.Request.shmOpen.inj h
            exact ⟨rfl, Nat.le_of_not_lt hlen, hfit⟩
          · exact (hrest _ _ _ h).elim
  · intro h
    obtain ⟨rfl, hlen, hfit⟩ := h
    rw [if_neg (Nat.not_lt.2 hlen)]
    refine .inr ⟨8, trivial, ?_⟩
    dsimp only
    rw [if_neg (by decide)]
    refine (shm_print (by simp)).2 ⟨[], ?_⟩
    rw [if_neg ((printed_pos_iff (by decide)).2 hfit), printed_eq hfit]
    exact .inl rfl

theorem create_shmOpens_iff {bytes : UInt32} :
    OpensShm true (skyShareMemoryCreate nameMax (some name) bytes) path ↔
      path = formatted nameSize shareMemNamePattern name ∧ ShmTakes nameMax name := by
  refine shmOpens_iff fun p printed file h => ?_
  cases file with
  | none => exact not_opens_cleanUp h
  | some fd =>
    obtain ⟨r, -, h⟩ := h.resolve_left (by simp)
    cases r
    · exact not_opens_cleanUp h
    · exact not_opens_map h

theorem open_shmOpens_iff : OpensShm false (skyShareMemoryOpen nameMax (some name)) path ↔
    path = formatted nameSize shareMemNamePattern name ∧ ShmTakes nameMax name := by
  refine shmOpens_iff fun p printed file h => ?_
  cases file with
  | none => exact not_opens_cleanUp h
  | some fd =>
    obtain ⟨r, -, h⟩ := h.resolve_left (by simp)
    cases r
    · exact not_opens_cleanUp h
    · exact not_opens_map h

end

/-! ## Two names -/

/-- The file of a new lock is the one that is opened if and only if the names are equal. -/
def LocksApart (nameMax : Nat) (a b : CStr) : Prop :=
  ∀ p q, Opens true (Rwlock.skyRwlockCreate nameMax (some a)) p →
    Opens false (Rwlock.skyRwlockOpen nameMax (some b)) q → (p = q ↔ a = b)

/-- The same for shared memory. -/
def ShmsApart (nameMax : Nat) (a b : CStr) : Prop :=
  ∀ size p q, OpensShm true (Shm.skyShareMemoryCreate nameMax (some a) size) p →
    OpensShm false (Shm.skyShareMemoryOpen nameMax (some b)) q → (p = q ↔ a = b)

theorem locksApart_iff (h : 32 < nameMax) :
    LocksApart nameMax a b ↔ ¬ (Clash (nameMax - 17) a b ∧ LockTakes a ∧ LockTakes b) := by
  have hlen : 16 ≤ nameMax - 1 := by omega
  have hpaths : (Rwlock.pathOf nameMax a = Rwlock.pathOf nameMax b ↔ a = b) ↔
      ¬ Clash (nameMax - 1 - 16) a b :=
    formatted_eq_iff (show Rwlock.rwlockNamePattern.length ≤ nameMax - 1 from hlen)
  rw [Nat.sub_sub] at hpaths
  constructor
  · intro hapart hclash
    obtain ⟨hclash, ha, hb⟩ := hclash
    have hlen : 0 < b.length := Nat.lt_of_lt_of_le (by omega) hclash.right
    exact hpaths.1 (hapart _ _ (create_opens_iff.2 ⟨rfl, ha⟩) (open_opens_iff.2 ⟨rfl, hb, hlen⟩))
      hclash
  · intro hno p q hp hq
    obtain ⟨rfl, ha⟩ := create_opens_iff.1 hp
    obtain ⟨rfl, hb, -⟩ := open_opens_iff.1 hq
    exact hpaths.2 fun hclash => hno ⟨hclash, ha, hb⟩

theorem shmsApart_iff : ShmsApart nameMax a b ↔
    ¬ (Clash 126 a b ∧ ShmTakes nameMax a ∧ ShmTakes nameMax b) := by
  have hnames : (formatted Shm.nameSize Shm.shareMemNamePattern a =
      formatted Shm.nameSize Shm.shareMemNamePattern b ↔ a = b) ↔ ¬ Clash 126 a b :=
    formatted_eq_iff (by decide)
  constructor
  · intro hapart hclash
    obtain ⟨hclash, ha, hb⟩ := hclash
    exact hnames.1 (hapart 0 _ _ (create_shmOpens_iff.2 ⟨rfl, ha⟩) (open_shmOpens_iff.2 ⟨rfl, hb⟩))
      hclash
  · intro hno size p q hp hq
    obtain ⟨rfl, ha⟩ := create_shmOpens_iff.1 hp
    obtain ⟨rfl, hb⟩ := open_shmOpens_iff.1 hq
    exact hnames.2 fun hclash => hno ⟨hclash, ha, hb⟩

theorem noNul_longName {n : Nat} {last : UInt8} (h : last ≠ 0) :
    0 ∉ List.replicate n (97 : UInt8) ++ [last] := by
  intro hmem
  rcases List.mem_append.1 hmem with hmem | hmem
  · exact CStr.noNul_replicate n hmem
  · exact h (List.mem_singleton.1 hmem).symm

/-- The letter `a` so many times, then one more character. -/
def longName (n : Nat) (last : UInt8) (h : last ≠ 0) : CStr where
  bytes := List.replicate n 97 ++ [last]
  noNul := noNul_longName h

@[simp] theorem length_longName {n : Nat} {last : UInt8} (h : last ≠ 0) :
    (longName n last h).length = n + 1 := by
  simp [longName, CStr.length]

theorem clash_longName {n : Nat} {c d : UInt8} (hc : c ≠ 0) (hd : d ≠ 0) (hne : c ≠ d) :
    Clash n (longName n c hc) (longName n d hd) where
  ne := by simpa [longName] using hne
  left := by simp
  right := by simp
  start := by simp [longName]

/-- Names are told apart unless they are the same as far as a buffer holds them. -/
theorem apart_iff (h : 32 < nameMax) : LocksApart nameMax a b ∧ ShmsApart nameMax a b ↔
    ¬ (Clash (nameMax - 17) a b ∧ LockTakes a ∧ LockTakes b) ∧
      ¬ (Clash 126 a b ∧ ShmTakes nameMax a ∧ ShmTakes nameMax b) :=
  and_congr (locksApart_iff h) shmsApart_iff

theorem apart_letters : LocksApart 64 (longName 0 97 (by decide)) (longName 0 98 (by decide)) ∧
    ShmsApart 64 (longName 0 97 (by decide)) (longName 0 98 (by decide)) :=
  (apart_iff (by decide)).2 ⟨fun h => absurd h.1.left (by decide),
    fun h => absurd h.1.left (by decide)⟩

/-- With 64 as the limit, two names of 48 characters that differ in the last are one lock; with 256,
two of 127 characters are one shared memory. -/
theorem not_apart :
    ¬ LocksApart 64 (longName 47 97 (by decide)) (longName 47 98 (by decide)) ∧
    ¬ ShmsApart 256 (longName 126 97 (by decide)) (longName 126 98 (by decide)) := by
  constructor
  · rw [locksApart_iff (by decide), not_not]
    refine ⟨clash_longName _ _ (by decide), ?_, ?_⟩ <;>
      simp [LockTakes, intMax, Rwlock.rwlockNamePattern]
  · rw [shmsApart_iff, not_not]
    refine ⟨clash_longName _ _ (by decide), ?_, ?_⟩ <;>
      simp [ShmTakes, intMax, skyStrLen, Shm.shareMemNamePattern]

end Sky.Names
