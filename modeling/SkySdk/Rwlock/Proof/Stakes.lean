import SkySdk.Rwlock.Defs

/-!
# What a call has to give back

The blocks and the descriptor that a call of `sky_rwlock.c` has (`Stake`): those it has got and not
given to a handle yet, and in a `destroy` those of the handle. The programs free and close only
what they have, and return with nothing but what the handle they return leads to (`call_safe`).
-/

set_option autoImplicit false

namespace Sky.Rwlock.Ledger

open Base

variable {nameMax : Nat} {p : Addr} {d : SkyHandleRwlock} {timeout : UInt32}

/-- The block of a name and the descriptor that go with a struct. -/
abbrev Holding := Option Addr × Option Nat

def holding (d : SkyHandleRwlock) : Holding := (d.fileName.map Prod.fst, d.fdRwlock)

/-- A name without a descriptor is forgotten by `sky_rwlock_destroy`. -/
def WellFiled (x : Holding) : Prop := x.2 = none → x.1 = none

def Typed (d : SkyHandleRwlock) : Prop := d.handleType = SkyHandleType.rwlock.code

inductive Stake
  | idle
  /-- The block `p` and these; the struct in it says so if `stored`. -/
  | has (p : Addr) (x : Holding) (stored : Bool)
  /-- A `destroy` that has not read the struct yet. -/
  | taken (p : Addr)

def firstStake : Call → Stake
  | .destroy p => if p = 0 then .idle else .taken p
  | _ => .idle

/-- The requests of a call with a stake. -/
def may (g : Stake) : Request → Prop
  | .alloc => g = .idle
  | .free p => ∃ s, g = .has p (none, none) s
  | .allocName _ => ∃ p fd s, g = .has p (none, fd) s
  | .freeName n => ∃ p fd s, g = .has p (some n, fd) s
  | .store p d => (∃ s, g = .has p (holding d) s) ∧ Typed d
  | .load p => g = .taken p ∨ g = .idle
  | .openFile _ _ => ∃ p name s, g = .has p (name, none) s
  | .close fd => ∃ p name s, g = .has p (name, some fd) s
  | _ => True

/-- The stake after a reply. -/
def next (g : Stake) : (o : Request) → o.Reply → Stake → Prop
  | .alloc, p => fun g' => g' = if p = 0 then .idle else .has p (none, none) false
  | .free _, _ => fun g' => g' = .idle
  | .allocName _, n => fun g' => ∃ p fd s, g = .has p (none, fd) s ∧
      g' = if n = 0 then g else .has p (some n, fd) false
  | .freeName n, _ => fun g' => ∃ p fd s, g = .has p (some n, fd) s ∧ g' = .has p (none, fd) false
  | .store p d, _ => fun g' => g' = .has p (holding d) true
  | .load p, d => fun g' =>
      g = .taken p ∧ WellFiled (holding d) ∧ Typed d ∧ g' = .has p (holding d) true ∨
        g = .idle ∧ g' = .idle
  | .openFile _ _, some fd => fun g' => ∃ p name s, g = .has p (name, none) s ∧
      g' = .has p (name, some fd) false
  | .close fd, _ => fun g' => ∃ p name s, g = .has p (name, some fd) s ∧
      g' = .has p (name, none) false
  | _, _ => fun g' => g' = g

/-- A call that neither makes a handle nor gives one up. -/
def Keeps : Call → Prop
  | .wrlock _ _ | .rdlock _ _ | .unlock _ => True
  | _ => False

/-- What a call may request with what it has. One that keeps its handle has nothing, a new
descriptor is put into a struct at once, and one that is in a struct is of the handle that is given
up. -/
def Stake.Fits (c : Call) (o : Request) : Stake → Prop
  | .idle => True
  | .has _ (_, none) _ => ¬ Keeps c
  | .has p (_, some _) false => ¬ Keeps c ∧ ∃ d, o = .store p d
  | .has p (_, some _) true => c = .destroy p
  | .taken p => c = .destroy p

def mayIn (c : Call) (g : Stake) (o : Request) : Prop := may g o ∧ g.Fits c o

/-- A call that returns a handle has what the struct of it says. -/
def Hands (g : Stake) (p : Addr) : Prop :=
  p = 0 ∧ g = .idle ∨ ∃ x, WellFiled x ∧ g = .has p x true

def post (c : Call) (g : Stake) (r : Resp) : Prop :=
  match c, r with
  | .create _, .handle p => Hands g p
  | .open _, .handle p => Hands g p
  | _, _ => g = .idle

/-- A call that returns has nothing, or it returns the handle that it has made. -/
theorem post_cases {c : Call} {g : Stake} {r : Resp} (h : post c g r) :
    g = .idle ∨ ¬ Keeps c ∧ ∃ p x, r = .handle p ∧ g = .has p x true := by
  have hhands : ∀ q, ¬ Keeps c → r = .handle q → Hands g q →
      g = .idle ∨ ¬ Keeps c ∧ ∃ p x, r = .handle p ∧ g = .has p x true := by
    intro q hc hr hg
    rcases hg with ⟨-, hg⟩ | ⟨x, -, hg⟩
    · exact .inl hg
    · exact .inr ⟨hc, q, x, hr, hg⟩
  cases c with
  | create name =>
    cases r with
    | handle q => exact hhands q id rfl h
    | _ => exact .inl h
  | «open» name =>
    cases r with
    | handle q => exact hhands q id rfl h
    | _ => exact .inl h
  | _ => exact .inl h

/-! ## The programs -/

abbrev SafeWith {α : Type} (c : Call) (Q : Stake → α → Prop) (g : Stake) (x : RwlockM α) : Prop :=
  x.Safe (mayIn c) next Q g

section
variable {α : Type} {c : Call} {Q : Stake → α → Prop} {g : Stake}

theorem safe_request {o : Request} {f : o.Reply → RwlockM α} (ho : may g o) (hc : g.Fits c o)
    (hf : ∀ r g', next g o r g' → SafeWith c Q g' (f r)) : SafeWith c Q g (request o >>= f) :=
  ⟨⟨ho, hc⟩, hf⟩

theorem safe_pure {a : α} (h : Q g a) : SafeWith c Q g (pure a) := h

theorem safe_skip {o : Request} {f : o.Reply → RwlockM α} (ho : may g o) (hc : g.Fits c o)
    (hn : ∀ r g', next g o r g' → g' = g) (hf : ∀ r, SafeWith c Q g (f r)) :
    SafeWith c Q g (request o >>= f) := by
  refine safe_request ho hc ?_
  intro r g' hg
  rw [hn r g' hg]
  exact hf r

theorem safe_free {s : Bool} {f : Unit → RwlockM α} (hc : ¬ Keeps c)
    (hf : SafeWith c Q .idle (f ())) :
    SafeWith c Q (.has p (none, none) s) (request (.free p) >>= f) := by
  refine safe_request ⟨s, rfl⟩ hc ?_
  intro _ g' hg'
  rw [hg']
  exact hf

theorem safe_freeName {n : Addr} {s : Bool} {f : Unit → RwlockM α} (hc : ¬ Keeps c)
    (hf : SafeWith c Q (.has p (none, none) false) (f ())) :
    SafeWith c Q (.has p (some n, none) s) (request (.freeName n) >>= f) := by
  refine safe_request ⟨p, none, s, rfl⟩ hc ?_
  intro _ g' hg'
  obtain ⟨q, fd', s', hg, rfl⟩ := hg'
  cases hg
  exact hf

theorem safe_store {s : Bool} {f : Unit → RwlockM α} (ht : Typed d)
    (hc : (Stake.has p (holding d) s).Fits c (.store p d))
    (hf : SafeWith c Q (.has p (holding d) true) (f ())) :
    SafeWith c Q (.has p (holding d) s) (request (.store p d) >>= f) := by
  refine safe_request ⟨⟨s, rfl⟩, ht⟩ hc ?_
  intro _ g' hg'
  rw [hg']
  exact hf

theorem safe_openFile {path : List UInt8} {create s : Bool} {name : Option Addr}
    {f : Option Nat → RwlockM α} (hc : ¬ Keeps c)
    (hnone : SafeWith c Q (.has p (name, none) s) (f none))
    (hsome : ∀ fd, SafeWith c Q (.has p (name, some fd) false) (f (some fd))) :
    SafeWith c Q (.has p (name, none) s) (request (.openFile path create) >>= f) := by
  refine safe_request ⟨p, name, s, rfl⟩ hc ?_
  intro file g' hg'
  cases file with
  | none =>
    rw [show g' = _ from hg']
    exact hnone
  | some fd =>
    obtain ⟨q, name', s', hg, rfl⟩ := hg'
    cases hg
    exact hsome fd

theorem safe_close {fd : Nat} {name : Option Addr} {f : Unit → RwlockM α} (hc : c = .destroy p)
    (hf : SafeWith c Q (.has p (name, none) false) (f ())) :
    SafeWith c Q (.has p (name, some fd) true) (request (.close fd) >>= f) := by
  refine safe_request ⟨p, name, true, rfl⟩ hc ?_
  intro _ g' hg'
  obtain ⟨q, name', s', hg, rfl⟩ := hg'
  cases hg
  exact hf

theorem safe_alloc {f : Addr → RwlockM α} (hnull : SafeWith c Q .idle (f 0))
    (hf : ∀ p, p ≠ 0 → SafeWith c Q (.has p (none, none) false) (f p)) :
    SafeWith c Q .idle (request .alloc >>= f) := by
  refine safe_request rfl trivial ?_
  intro p g' (hg' : g' = if p = 0 then .idle else .has p (none, none) false)
  by_cases hp : p = 0
  · rw [hg', if_pos hp, hp]
    exact hnull
  · rw [hg', if_neg hp]
    exact hf p hp

end

section
variable {c : Call}

theorem null_hands : SafeWith c Hands .idle (pure 0) := safe_pure (.inl ⟨rfl, rfl⟩)

theorem made_hands (hd : WellFiled (holding d)) :
    SafeWith c Hands (.has p (holding d) true) (pure p) := safe_pure (.inr ⟨_, hd, rfl⟩)

theorem create_safe (hc : ¬ Keeps c) (name : Option CStr) :
    SafeWith c Hands .idle (skyRwlockCreate nameMax name) := by
  unfold skyRwlockCreate
  refine safe_alloc ?_ ?_
  · rw [if_pos rfl]
    exact null_hands
  intro p hp
  rw [if_neg hp]
  cases name with
  | some name =>
    refine safe_request ⟨p, none, false, rfl⟩ hc ?_
    intro n g1 hg1
    obtain ⟨q, fd, s, hg, rfl⟩ := hg1
    cases hg
    by_cases hn : n = 0
    · rw [if_pos hn, if_pos hn]
      exact safe_free hc null_hands
    rw [if_neg hn, if_neg hn]
    have hundo : SafeWith c Hands (.has p (some n, none) false)
        (request (.freeName n) >>= fun _ => request (.free p) >>= fun _ => pure 0) :=
      safe_freeName hc (safe_free hc null_hands)
    refine safe_request trivial hc ?_
    intro printed g2 hg2
    rw [show g2 = _ from hg2]
    by_cases hrc : printed.1 ≤ 0
    · rw [if_pos hrc]
      exact hundo
    rw [if_neg hrc]
    refine safe_openFile hc hundo ?_
    intro fd
    refine safe_store (d := { newRwlock with fdRwlock := some fd, fileName := some (n, printed.2) })
      rfl ⟨hc, _, rfl⟩ (made_hands ?_)
    intro hnone
    cases hnone
  | none =>
    refine safe_skip trivial hc (fun _ _ h => h) ?_
    intro rc
    by_cases hrc : rc ≠ 0
    · rw [if_pos hrc]
      exact safe_free hc null_hands
    · rw [if_neg hrc]
      exact safe_store (d := { newRwlock with fdRwlock := none }) rfl hc (made_hands fun _ => rfl)

theorem open_safe (hc : ¬ Keeps c) (name : Option CStr) :
    SafeWith c Hands .idle (skyRwlockOpen nameMax name) := by
  cases name with
  | none => exact null_hands
  | some name =>
    unfold skyRwlockOpen
    dsimp only
    by_cases hlen : skyStrLen name > 0
    · rw [if_pos hlen]
      refine safe_request trivial trivial ?_
      intro printed g1 hg1
      rw [show g1 = _ from hg1]
      by_cases hrc : printed.1 > 0
      · rw [if_pos hrc]
        refine safe_alloc ?_ ?_
        · rw [if_pos rfl]
          exact null_hands
        intro p hp
        rw [if_neg hp]
        refine safe_openFile hc (safe_free hc null_hands) ?_
        intro fd
        exact safe_store (d := { newRwlock with fdRwlock := some fd }) rfl ⟨hc, _, rfl⟩
          (made_hands fun _ => rfl)
      · rw [if_neg hrc]
        exact null_hands
    · rw [if_neg hlen]
      exact null_hands

end

theorem destroy_safe : SafeWith (.destroy p) (fun g _ => g = .idle) (firstStake (.destroy p))
    (skyRwlockDestroy p) := by
  have hc : ¬ Keeps (.destroy p) := id
  unfold skyRwlockDestroy
  by_cases hp : p = 0
  · rw [firstStake, if_pos hp]
    refine safe_skip trivial trivial (fun _ _ h => h) ?_
    intro _
    rw [if_neg (not_not.2 hp)]
    exact safe_pure rfl
  rw [firstStake, if_neg hp]
  refine safe_skip trivial rfl (fun _ _ h => h) ?_
  intro _
  rw [if_pos hp]
  refine safe_request (.inl rfl) rfl ?_
  intro d g1 hg1
  rcases hg1 with ⟨-, hwell, htype, rfl⟩ | ⟨hg, -⟩
  · have hfree : ∀ g (_ : Unit), (∃ s, g = .has p (none, none) s) →
        SafeWith (.destroy p) (fun g _ => g = .idle) g (request (.free p)) := by
      intro g _ hg
      obtain ⟨s, rfl⟩ := hg
      exact safe_free (f := pure) hc (safe_pure rfl)
    refine Proc.Safe.bind hfree ?_
    cases hfd : d.fdRwlock with
    | none =>
      have hnone : holding d = (none, none) := Prod.ext (hwell hfd) hfd
      rw [hnone]
      refine safe_skip trivial hc (fun _ _ h => h) ?_
      intro _
      exact safe_pure ⟨true, rfl⟩
    | some fd =>
      rw [holding, hfd]
      refine safe_close rfl ?_
      refine safe_store (d := { d with fdRwlock := none }) htype hc ?_
      cases hname : d.fileName with
      | some fileName =>
        have hheld : holding { d with fdRwlock := none } = (some fileName.1, none) := by
          rw [holding, hname]
          rfl
        rw [hname] at hheld
        rw [hheld]
        refine safe_skip trivial hc (fun _ _ h => h) ?_
        intro _
        refine safe_freeName hc ?_
        exact safe_store (d := { d with fdRwlock := none, fileName := none }) (f := pure) htype hc
          (safe_pure ⟨true, rfl⟩)
      | none => exact safe_pure ⟨true, by rw [holding]; rfl⟩
  · cases hg

/-! ## Locking -/

/-- A call that has nothing at any time. -/
abbrev Idles {α : Type} (x : RwlockM α) : Prop :=
  x.Safe (fun g o => may g o ∧ g = .idle) next (fun g _ => g = .idle) .idle

theorem idles_skip {α : Type} {o : Request} {f : o.Reply → RwlockM α} (ho : may .idle o)
    (hn : ∀ r g', next .idle o r g' → g' = .idle) (hf : ∀ r, Idles (f r)) :
    Idles (request o >>= f) := by
  refine ⟨⟨ho, rfl⟩, ?_⟩
  intro r g' hg
  rw [hn r g' hg]
  exact hf r

theorem idles_pure {α : Type} (a : α) : Idles (pure a) := rfl

theorem idles_bind {α β : Type} {x : RwlockM α} {f : α → RwlockM β} (hx : Idles x)
    (hf : ∀ a, Idles (f a)) : Idles (x >>= f) := by
  refine Proc.Safe.bind ?_ hx
  intro g a hg
  rw [hg]
  exact hf a

theorem poll_idles (fd : Nat) (mode : LockMode) (tick : UInt32) (rounds : Nat) :
    Idles (poll fd mode tick timeout rounds) := by
  induction rounds with
  | zero => exact idles_skip trivial (fun _ _ h => h) fun _ => idles_pure _
  | succ rounds ih =>
    unfold poll
    refine idles_skip trivial (fun _ _ h => h) ?_
    intro rc
    by_cases hrc : rc ≠ 0
    · rw [if_pos hrc]
      refine idles_skip trivial (fun _ _ h => h) ?_
      intro _
      refine idles_skip trivial (fun _ _ h => h) ?_
      intro now
      show Idles (if skySystickDiff tick now < timeout then _ else _)
      by_cases ht : skySystickDiff tick now < timeout
      · rw [if_pos ht]
        exact ih
      · rw [if_neg ht]
        exact idles_pure _
    · rw [if_neg hrc]
      exact idles_pure _

theorem lockFile_idles (fd : Nat) (mode : LockMode) : Idles (lockFile fd mode timeout) := by
  unfold lockFile
  split
  · exact idles_skip (f := pure) trivial (fun _ _ h => h) idles_pure
  split
  · exact idles_skip (f := pure) trivial (fun _ _ h => h) idles_pure
  refine idles_skip trivial (fun _ _ h => h) ?_
  intro tick
  refine idles_skip trivial (fun _ _ h => h) ?_
  intro rounds
  exact poll_idles fd mode tick rounds

theorem lockThread_idles (q : Addr) (mode : LockMode) : Idles (lockThread q mode timeout) := by
  unfold lockThread
  split
  · exact idles_skip (f := pure) trivial (fun _ _ h => h) idles_pure
  split
  · exact idles_skip (f := pure) trivial (fun _ _ h => h) idles_pure
  · exact idles_skip (f := pure) trivial (fun _ _ h => h) idles_pure

/-- A call on a handle that is not given up. -/
theorem load_idles {α : Type} {f : SkyHandleRwlock → RwlockM α} (hf : ∀ d, Idles (f d)) :
    Idles (request (.load p) >>= f) := by
  refine idles_skip (.inr rfl) ?_ hf
  intro d g' hg'
  rcases hg' with ⟨hg, -⟩ | ⟨-, hg'⟩
  · cases hg
  · exact hg'

theorem lockWith_idles (mode : LockMode) : Idles (lockWith mode p timeout) := by
  unfold lockWith
  refine idles_skip trivial (fun _ _ h => h) ?_
  intro _
  split
  · refine load_idles ?_
    intro d
    cases d.fdRwlock with
    | some fd => exact idles_bind (lockFile_idles fd mode) fun _ => idles_pure _
    | none => exact idles_bind (lockThread_idles p mode) fun _ => idles_pure _
  · exact idles_pure _

theorem unlock_idles : Idles (skyRwlockUnlock p) := by
  unfold skyRwlockUnlock
  refine idles_skip trivial (fun _ _ h => h) ?_
  intro _
  split
  · refine load_idles ?_
    intro d
    cases d.fdRwlock with
    | some fd => exact idles_skip trivial (fun _ _ h => h) fun _ => idles_pure _
    | none => exact idles_skip trivial (fun _ _ h => h) fun _ => idles_pure _
  · exact idles_pure _

theorem idles_keeps {c : Call} {r : RwlockM Resp} (h : Idles r) :
    r.Safe (mayIn c) next (fun g _ => g = .idle) .idle := by
  refine Proc.Safe.weaken h ?_
  intro g o hm
  obtain ⟨hmay, rfl⟩ := hm
  exact ⟨hmay, trivial⟩

theorem call_safe (c : Call) : (call nameMax c).Safe (mayIn c) next (post c) (firstStake c) := by
  cases c with
  | create name =>
    refine (create_safe id name).bind ?_
    intro g p h
    exact h
  | «open» name =>
    refine (open_safe id name).bind ?_
    intro g p h
    exact h
  | wrlock p timeout => exact idles_keeps (idles_bind (lockWith_idles .exclusive) fun _ => rfl)
  | rdlock p timeout => exact idles_keeps (idles_bind (lockWith_idles .shared) fun _ => rfl)
  | unlock p => exact idles_keeps (idles_bind unlock_idles fun _ => rfl)
  | destroy p =>
    refine destroy_safe.bind ?_
    intro g _ h
    exact h

end Sky.Rwlock.Ledger
