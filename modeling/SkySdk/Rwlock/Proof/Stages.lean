import SkySdk.Rwlock.Defs

/-!
# The stages of a call

How far a call of `sky_rwlock.c` has come, by the block and the descriptor it has (`Stage`), the
requests it may make in each stage (`may`), and what a reply takes it to (`next`). The programs keep
to them (`call_safe`).
-/

set_option autoImplicit false

namespace Sky.Rwlock

open Base

variable {nameMax : Nat} {p : Addr} {d : SkyHandleRwlock} {fd : Nat} {mode : LockMode}
  {timeout : UInt32}

inductive Stage
  | idle
  /-- A block that no handle leads to, whose struct has no descriptor. -/
  | block (p : Addr)
  /-- The block, and a descriptor opened for it by a path. -/
  | owns (p : Addr) (fd : Nat) (path : List UInt8)
  /-- The block with its struct in it, whose descriptor was opened by the path. -/
  | made (p : Addr) (path : Option (List UInt8))
  /-- A `destroy` that has not read the struct yet. -/
  | taken (p : Addr)
  /-- A call on a handle that has not read the struct yet. -/
  | using (p : Addr)
  | loaded (p : Addr) (d : SkyHandleRwlock)
  /-- The call has got a lock on the descriptor of the struct. -/
  | locked (p : Addr) (d : SkyHandleRwlock) (mode : LockMode)

def firstStage : Call → Stage
  | .create _ | .open _ => .idle
  | .wrlock p _ | .rdlock p _ | .unlock p => .using p
  | .destroy p => .taken p

/-- The requests of a call in a stage. -/
def may (g : Stage) : Request → Prop
  | .alloc => g = .idle
  | .free p => g = .block p ∨ g = .made p none
  | .store p d => (∃ fd path, g = .owns p fd path ∧ d.fdRwlock = some fd) ∨
      (g = .block p ∨ g = .made p none) ∧ d.fdRwlock = none
  | .load p => p ≠ 0 ∧ (g = .using p ∨ g = .taken p)
  | .openFile _ _ => ∃ p, g = .block p
  | .close fd => ∃ p path, g = .owns p fd path
  | .flock fd _ _ => ∃ p d, g = .loaded p d ∧ d.fdRwlock = some fd
  | _ => True

/-- The stage after a reply. -/
def next (g : Stage) : (o : Request) → o.Reply → Stage → Prop
  | .alloc, p => fun g' => g' = if p = 0 then .idle else .block p
  | .free _, _ => fun g' => g' = .idle
  | .store p _, _ => fun g' => (∃ fd path, g = .owns p fd path ∧ g' = .made p (some path)) ∨
      (g = .block p ∨ g = .made p none) ∧ g' = .made p none
  | .load p, d => fun g' => g = .using p ∧ g' = .loaded p d ∨
      g = .taken p ∧ ((d.fdRwlock = none ∧ g' = .block p) ∨
        ∃ fd path, d.fdRwlock = some fd ∧ g' = .owns p fd path)
  | .print size before name, r => fun g' => g' = g ∧ ∃ left, r = skyStrPrintf size before name left
  | .openFile path _, some fd => fun g' => ∃ p, g = .block p ∧ g' = .owns p fd path
  | .close fd, _ => fun g' => ∃ p path, g = .owns p fd path ∧ g' = .block p
  | .flock _ (some mode) _, rc => fun g' => rc ≠ 0 ∧ g' = g ∨
      rc = 0 ∧ ∃ p d, g = .loaded p d ∧ g' = .locked p d mode
  | _, _ => fun g' => g' = g

/-- The stage of a call on `p` that has got no lock. -/
def Stage.Unlocked (g : Stage) (p : Addr) : Prop := g = .using p ∨ ∃ d, g = .loaded p d

/-- The stage of a lock call on `p` by its result: it has the lock of a file, or that of a
`pthread_rwlock_t`. -/
def Stage.Got (g : Stage) (p : Addr) (mode : LockMode) : Bool → Prop
  | true => ∃ d, g = .locked p d mode ∨ g = .loaded p d ∧ d.fdRwlock = none
  | false => g.Unlocked p

/-- The stage of a call that returns. -/
def post (nameMax : Nat) (c : Call) (g : Stage) (r : Resp) : Prop :=
  match c, r with
  | .create name, .handle p => p ≠ 0 → g = .made p (name.map (pathOf nameMax))
  | .open name, .handle p => p ≠ 0 → g = .made p (name.map (pathOf nameMax))
  | .wrlock p _, .locked r => g.Got p .exclusive r
  | .rdlock p _, .locked r => g.Got p .shared r
  | .unlock p, _ => g.Unlocked p
  | _, _ => True

/-! ## The programs keep to their stages -/

abbrev SafeIn {α : Type} (Q : Stage → α → Prop) (g : Stage) (x : RwlockM α) : Prop :=
  x.Safe may next Q g

section
variable {α : Type} {Q : Stage → α → Prop} {g : Stage}

theorem safe_request {o : Request} {f : o.Reply → RwlockM α} (ho : may g o)
    (hf : ∀ r g', next g o r g' → SafeIn Q g' (f r)) : SafeIn Q g (request o >>= f) := ⟨ho, hf⟩

theorem safe_pure {a : α} (h : Q g a) : SafeIn Q g (pure a) := h

theorem safe_skip {o : Request} {f : o.Reply → RwlockM α} (ho : may g o)
    (hn : ∀ r g', next g o r g' → g' = g) (hf : ∀ r, SafeIn Q g (f r)) :
    SafeIn Q g (request o >>= f) := by
  refine safe_request ho ?_
  intro r g' hg
  rw [hn r g' hg]
  exact hf r

end

/-- A handle that a call returns is one it has made. -/
def Makes (path : Option (List UInt8)) (g : Stage) (p : Addr) : Prop := p ≠ 0 → g = .made p path

theorem null_makes {path : Option (List UInt8)} {g : Stage} :
    SafeIn (Makes path) g (pure 0) := safe_pure fun h => absurd rfl h

theorem free_makes {path : Option (List UInt8)} :
    SafeIn (Makes path) (.block p) (request (.free p) >>= fun _ => pure 0) := by
  refine safe_request (.inl rfl) ?_
  intro _ g' _
  exact null_makes

theorem store_makes {path : List UInt8} (hd : d.fdRwlock = some fd) :
    SafeIn (Makes (some path)) (.owns p fd path)
      (request (.store p d) >>= fun _ => pure p) := by
  refine safe_request (.inl ⟨fd, path, rfl, hd⟩) ?_
  intro _ g' hg'
  rcases hg' with ⟨fd', path', hg, rfl⟩ | ⟨hg | hg, -⟩
  · cases hg
    exact safe_pure fun _ => rfl
  · cases hg
  · cases hg

theorem create_safe (name : Option CStr) :
    SafeIn (Makes (name.map (pathOf nameMax))) .idle (skyRwlockCreate nameMax name) := by
  unfold skyRwlockCreate
  refine safe_request rfl ?_
  intro p g1 (hg1 : g1 = if p = 0 then .idle else .block p)
  subst hg1
  by_cases hp : p = 0
  · rw [if_pos hp, if_pos hp]
    exact null_makes
  rw [if_neg hp, if_neg hp]
  cases name with
  | some name =>
    refine safe_skip trivial (fun _ _ h => h) ?_
    intro fileName
    by_cases hf : fileName = 0
    · rw [if_pos hf]
      exact free_makes
    rw [if_neg hf]
    refine safe_request trivial ?_
    intro printed g2 hg2
    obtain ⟨rfl, left, rfl⟩ := hg2
    by_cases hrc : (skyStrPrintf nameMax rwlockNamePattern name left).1 ≤ 0
    · rw [if_pos hrc]
      refine safe_skip trivial (fun _ _ h => h) ?_
      intro _
      exact free_makes
    rw [if_neg hrc, skyStrPrintf_pos (Int.not_le.1 hrc)]
    refine safe_request ⟨p, rfl⟩ ?_
    intro file g3 hg3
    cases file with
    | none =>
      subst hg3
      refine safe_skip trivial (fun _ _ h => h) ?_
      intro _
      exact free_makes
    | some fd =>
      obtain ⟨q, hq, rfl⟩ := hg3
      cases hq
      exact store_makes rfl
  | none =>
    refine safe_skip trivial (fun _ _ h => h) ?_
    intro rc
    by_cases hrc : rc ≠ 0
    · rw [if_pos hrc]
      exact free_makes
    rw [if_neg hrc]
    refine safe_request (.inr ⟨.inl rfl, rfl⟩) ?_
    intro _ g2 hg2
    rcases hg2 with ⟨fd, path, hg, -⟩ | ⟨-, rfl⟩
    · cases hg
    · exact safe_pure fun _ => rfl

theorem open_safe (name : Option CStr) :
    SafeIn (Makes (name.map (pathOf nameMax))) .idle (skyRwlockOpen nameMax name) := by
  cases name with
  | none => exact null_makes
  | some name =>
    unfold skyRwlockOpen
    dsimp only
    by_cases hlen : skyStrLen name > 0
    · rw [if_pos hlen]
      refine safe_request trivial ?_
      intro printed g1 hg1
      obtain ⟨rfl, left, rfl⟩ := hg1
      by_cases hrc : (skyStrPrintf nameMax rwlockNamePattern name left).1 > 0
      · rw [if_pos hrc, skyStrPrintf_pos hrc]
        refine safe_request rfl ?_
        intro p g2 (hg2 : g2 = if p = 0 then .idle else .block p)
        subst hg2
        by_cases hp : p = 0
        · rw [if_pos hp, if_pos hp]
          exact null_makes
        rw [if_neg hp, if_neg hp]
        refine safe_request ⟨p, rfl⟩ ?_
        intro file g3 hg3
        cases file with
        | none =>
          subst hg3
          exact free_makes
        | some fd =>
          obtain ⟨q, hq, rfl⟩ := hg3
          cases hq
          exact store_makes rfl
      · rw [if_neg hrc]
        exact null_makes
    · rw [if_neg hlen]
      exact null_makes

theorem store_block {α : Type} {Q : Stage → α → Prop} {g : Stage} {x : RwlockM α}
    (hg : g = .block p ∨ g = .made p none) (hd : d.fdRwlock = none)
    (hx : SafeIn Q (.made p none) x) : SafeIn Q g (request (.store p d) >>= fun _ => x) := by
  refine safe_request (.inr ⟨hg, hd⟩) ?_
  intro _ g' hg'
  rcases hg' with ⟨fd, path, hg', -⟩ | ⟨-, rfl⟩
  · rcases hg with hg | hg
    · rw [hg] at hg'
      cases hg'
    · rw [hg] at hg'
      cases hg'
  · exact hx

theorem destroy_safe : SafeIn (fun _ _ => True) (.taken p) (skyRwlockDestroy p) := by
  unfold skyRwlockDestroy
  refine safe_skip trivial (fun _ _ h => h) ?_
  intro _
  by_cases hp : p ≠ 0
  · rw [if_pos hp]
    refine safe_request ⟨hp, .inr rfl⟩ ?_
    intro d g1 hg1
    have hfree : ∀ g (_ : Unit), g = .block p ∨ g = .made p none →
        SafeIn (fun _ _ => True) g (request (.free p)) := by
      intro g _ hg
      exact safe_request hg fun _ _ _ => safe_pure trivial
    refine Proc.Safe.bind hfree ?_
    rcases hg1 with ⟨hg, -⟩ | ⟨-, ⟨hfd, rfl⟩ | ⟨fd, path, hfd, rfl⟩⟩
    · cases hg
    · rw [hfd]
      refine safe_skip trivial (fun _ _ h => h) ?_
      intro _
      exact safe_pure (.inl rfl)
    · rw [hfd]
      refine safe_request ⟨p, path, rfl⟩ ?_
      intro _ g2 hg2
      obtain ⟨q, path', hg2, rfl⟩ := hg2
      cases hg2
      refine store_block (.inl rfl) rfl ?_
      cases d.fileName with
      | some fileName =>
        refine safe_skip trivial (fun _ _ h => h) ?_
        intro _
        refine safe_skip trivial (fun _ _ h => h) ?_
        intro _
        exact store_block (x := pure ()) (.inr rfl) rfl (safe_pure (.inr rfl))
      | none => exact safe_pure (.inr rfl)
  · rw [if_neg hp]
    exact safe_pure trivial

/-! ## Locking -/

/-- A call that has locked the descriptor if its result is 0. -/
def Locks (p : Addr) (d : SkyHandleRwlock) (mode : LockMode) (g : Stage) (rc : Int) : Prop :=
  g = if rc = 0 then .locked p d mode else .loaded p d

theorem locks_fail {rc : Int} (h : rc ≠ 0) : Locks p d mode (.loaded p d) rc := (if_neg h).symm

theorem flock_locks {nonBlocking : Bool} (hfd : d.fdRwlock = some fd) {f : Int → RwlockM Int}
    (h0 : SafeIn (Locks p d mode) (.locked p d mode) (f 0))
    (hf : ∀ rc, rc ≠ 0 → SafeIn (Locks p d mode) (.loaded p d) (f rc)) :
    SafeIn (Locks p d mode) (.loaded p d)
      (request (.flock fd (some mode) nonBlocking) >>= f) := by
  refine safe_request ⟨p, d, rfl, hfd⟩ ?_
  intro rc g' hg'
  rcases hg' with ⟨hrc, rfl⟩ | ⟨hrc, q, d', hg, rfl⟩
  · exact hf rc hrc
  · cases hg
    have hz : rc = 0 := hrc
    rw [hz]
    exact h0

theorem poll_safe (hfd : d.fdRwlock = some fd) (tick : UInt32) (rounds : Nat) :
    SafeIn (Locks p d mode) (.loaded p d) (poll fd mode tick timeout rounds) := by
  induction rounds with
  | zero =>
    unfold poll
    refine safe_skip trivial (fun _ _ h => h) ?_
    intro _
    exact safe_pure (locks_fail (by decide))
  | succ rounds ih =>
    unfold poll
    refine flock_locks hfd (safe_pure rfl) ?_
    intro rc hrc
    rw [if_pos hrc]
    refine safe_skip trivial (fun _ _ h => h) ?_
    intro _
    refine safe_skip trivial (fun _ _ h => h) ?_
    intro now
    by_cases ht : skySystickDiff tick now < timeout
    · change SafeIn _ _ (if skySystickDiff tick now < timeout then _ else _)
      rw [if_pos ht]
      exact ih
    · change SafeIn _ _ (if skySystickDiff tick now < timeout then _ else _)
      rw [if_neg ht]
      exact safe_pure (locks_fail hrc)

theorem lockFile_safe (hfd : d.fdRwlock = some fd) :
    SafeIn (Locks p d mode) (.loaded p d) (lockFile fd mode timeout) := by
  have hflock : ∀ nonBlocking, SafeIn (Locks p d mode) (.loaded p d)
      (request (.flock fd (some mode) nonBlocking)) := by
    intro nonBlocking
    exact flock_locks (f := pure) hfd (safe_pure rfl) fun rc hrc => safe_pure (locks_fail hrc)
  unfold lockFile
  by_cases hinf : timeout = skyInfinite
  · rw [if_pos hinf]
    exact hflock false
  rw [if_neg hinf]
  by_cases hzero : timeout = 0
  · rw [if_pos hzero]
    exact hflock true
  rw [if_neg hzero]
  refine safe_skip trivial (fun _ _ h => h) ?_
  intro tick
  refine safe_skip trivial (fun _ _ h => h) ?_
  intro rounds
  exact poll_safe hfd tick rounds

theorem lockThread_safe (q : Addr) :
    SafeIn (fun g _ => g = .loaded p d) (.loaded p d) (lockThread q mode timeout) := by
  have hlock : ∀ wait, SafeIn (fun g _ => g = .loaded p d) (.loaded p d)
      (request (.pthreadLock q mode wait)) := by
    intro wait
    exact safe_request trivial fun _ _ h => safe_pure h
  unfold lockThread
  by_cases hinf : timeout = skyInfinite
  · rw [if_pos hinf]
    exact hlock .forever
  rw [if_neg hinf]
  by_cases hzero : timeout = 0
  · rw [if_pos hzero]
    exact hlock .never
  · rw [if_neg hzero]
    exact hlock (.after timeout)

theorem load_using {α : Type} {Q : Stage → α → Prop} {f : SkyHandleRwlock → RwlockM α} (hp : p ≠ 0)
    (hf : ∀ d, SafeIn Q (.loaded p d) (f d)) : SafeIn Q (.using p) (request (.load p) >>= f) := by
  refine safe_request ⟨hp, .inl rfl⟩ ?_
  intro d g' hg'
  rcases hg' with ⟨-, rfl⟩ | ⟨hg, -⟩
  · exact hf d
  · cases hg

theorem lockWith_safe (mode : LockMode) :
    SafeIn (fun g r => g.Got p mode r) (.using p) (lockWith mode p timeout) := by
  unfold lockWith
  refine safe_skip trivial (fun _ _ h => h) ?_
  intro _
  by_cases hp : p ≠ 0
  · rw [if_pos hp]
    refine load_using hp ?_
    intro d
    cases hfd : d.fdRwlock with
    | some fd =>
      refine Proc.Safe.bind ?_ (lockFile_safe hfd)
      intro g rc (hg : g = if rc = 0 then .locked p d mode else .loaded p d)
      refine safe_pure ?_
      by_cases hrc : rc = 0
      · rw [if_pos hrc] at hg
        rw [decide_eq_true hrc]
        exact ⟨d, .inl hg⟩
      · rw [if_neg hrc] at hg
        rw [decide_eq_false hrc]
        exact .inr ⟨d, hg⟩
    | none =>
      refine Proc.Safe.bind ?_ (lockThread_safe p)
      intro g rc hg
      refine safe_pure ?_
      by_cases hrc : rc = 0
      · rw [decide_eq_true hrc]
        exact ⟨d, .inr ⟨hg, hfd⟩⟩
      · rw [decide_eq_false hrc]
        exact .inr ⟨d, hg⟩
  · rw [if_neg hp]
    exact safe_pure (.inl rfl)

theorem unlock_safe : SafeIn (fun g _ => g.Unlocked p) (.using p) (skyRwlockUnlock p) := by
  unfold skyRwlockUnlock
  refine safe_skip trivial (fun _ _ h => h) ?_
  intro _
  by_cases hp : p ≠ 0
  · rw [if_pos hp]
    refine load_using hp ?_
    intro d
    cases hfd : d.fdRwlock with
    | some fd =>
      refine safe_request ⟨p, d, rfl, hfd⟩ ?_
      intro _ g hg
      exact safe_pure (.inr ⟨d, hg⟩)
    | none =>
      refine safe_skip trivial (fun _ _ h => h) ?_
      intro _
      exact safe_pure (.inr ⟨d, rfl⟩)
  · rw [if_neg hp]
    exact safe_pure (.inl rfl)

theorem call_safe (c : Call) : SafeIn (post nameMax c) (firstStage c) (call nameMax c) := by
  cases c with
  | create name =>
    refine (create_safe name).bind ?_
    intro g p h
    exact safe_pure h
  | «open» name =>
    refine (open_safe name).bind ?_
    intro g p h
    exact safe_pure h
  | wrlock p timeout =>
    refine Proc.Safe.bind ?_ (lockWith_safe .exclusive)
    intro g r h
    exact safe_pure h
  | rdlock p timeout =>
    refine Proc.Safe.bind ?_ (lockWith_safe .shared)
    intro g r h
    exact safe_pure h
  | unlock p =>
    refine unlock_safe.bind ?_
    intro g _ h
    exact safe_pure h
  | destroy p =>
    refine destroy_safe.bind ?_
    intro g _ _
    exact safe_pure trivial

end Sky.Rwlock
