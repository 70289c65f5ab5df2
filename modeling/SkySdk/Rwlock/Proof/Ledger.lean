import SkySdk.Rwlock.Proof.Books
import SkySdk.Rwlock.Proof.Exclusion

/-!
# Locks and their handles in any interleaving

What there is belongs to a handle that the callers have or to a call that makes one or gives one up,
whatever fails and in whatever order the calls of all processes take their steps, as long as only
handles that the callers have are given to a `destroy` (`Gives`). So nothing is freed or closed
twice, nothing is left when the handles are gone (`run_accounted`), and a lock that is waited for is
one of a handle, not of one that is gone (`waits_for_live`).
-/

set_option autoImplicit false

namespace Sky.Rwlock.Ledger

open Base

variable {ι κ : Type} {proc : ι → κ} {b : Build} {nameMax : Nat} {w w' : World ι κ} {i j : ι}
  {own own' : κ × Addr → Option Holding} {h : κ × Addr} {p n : Addr} {g : Stake} {gs : ι → Stake}
  {d : SkyHandleRwlock} {fd : Nat} {x : Choice} {y : Holding} {s : Bool}

/-! ## Who has it -/

def Stake.On : Stake → Addr → Prop
  | .idle, _ => False
  | .has q _ _, p | .taken q, p => q = p

theorem on_has (hg : g = .has p y s) : g.On p := by
  subst hg
  rfl

theorem on_taken (hg : g = .taken p) : g.On p := by
  subst hg
  rfl

theorem not_on_idle (hg : g = .idle) : ¬ g.On p := by
  subst hg
  exact id

/-- A call has one struct at most. -/
theorem Stake.On.unique (hp : g.On p) (q : Addr) (hq : g.On q) : q = p := by
  cases g with
  | idle => exact hp.elim
  | has a y s => exact hq.symm.trans hp
  | taken a => exact hq.symm.trans hp

/-- The struct at `h` says what it has. -/
def Settled (own : κ × Addr → Option Holding) (w : World ι κ) (h : κ × Addr) : Prop :=
  ∃ d, w.blocks h = some (.lock d) ∧ own h = some (holding d) ∧ WellFiled (holding d) ∧ Typed d

def Known (proc : ι → κ) (own : κ × Addr → Option Holding) (w : World ι κ) (i : ι) : Stake → Prop
  | .idle => True
  | .has p y stored => p ≠ 0 ∧ w.handed (proc i, p) = none ∧ own (proc i, p) = some y ∧
      (stored = true → ∃ d, w.blocks (proc i, p) = some (.lock d) ∧ holding d = y ∧ Typed d)
  | .taken p => p ≠ 0 ∧ w.handed (proc i, p) = none ∧ Settled own w (proc i, p)

/-- Each struct is that of a handle the callers have, or of one call. -/
structure Shares (proc : ι → κ) (own : κ × Addr → Option Holding) (w : World ι κ)
    (gs : ι → Stake) : Prop where
  known : ∀ i, Known proc own w i (gs i)
  apart : ∀ i j p, proc i = proc j → (gs i).On p → (gs j).On p → i = j
  live : ∀ h, w.handed h ≠ none → Settled own w h
  owned : ∀ h, own h ≠ none → w.handed h ≠ none ∨ ∃ i, proc i = h.1 ∧ (gs i).On h.2

def Inv (proc : ι → κ) (w : World ι κ) (gs : ι → Stake) : Prop :=
  ∃ own, Books own w ∧ Shares proc own w gs

theorem Shares.on (S : Shares proc own w gs) (hon : (gs i).On p) :
    p ≠ 0 ∧ w.handed (proc i, p) = none ∧ own (proc i, p) ≠ none := by
  have hk := S.known i
  cases hg : gs i with
  | idle =>
    rw [hg] at hon
    exact hon.elim
  | has q y stored =>
    rw [hg] at hk hon
    cases hon
    exact ⟨hk.1, hk.2.1, by simp [hk.2.2.1]⟩
  | taken q =>
    rw [hg] at hk hon
    cases hon
    obtain ⟨hz, hh, d, -, hown, -⟩ := hk
    exact ⟨hz, hh, by simp [hown]⟩

theorem Settled.keep (hs : Settled own w h)
    (hb : ∀ d, w.blocks h = some (.lock d) → w'.blocks h = some (.lock d)) (hown : own' h = own h) :
    Settled own' w' h := by
  obtain ⟨d, hd, ho, hwell⟩ := hs
  exact ⟨d, hb d hd, hown.trans ho, hwell⟩

theorem Known.keep (hk : Known proc own w i g)
    (hb : ∀ p, g.On p → ∀ d, w.blocks (proc i, p) = some (.lock d) →
      w'.blocks (proc i, p) = some (.lock d))
    (hown : ∀ p, g.On p → own' (proc i, p) = own (proc i, p))
    (hh : ∀ p, g.On p → w'.handed (proc i, p) = w.handed (proc i, p)) :
    Known proc own' w' i g := by
  cases g with
  | idle => trivial
  | has p y stored =>
    obtain ⟨hz, hnone, ho, hst⟩ := hk
    refine ⟨hz, (hh p rfl).trans hnone, (hown p rfl).trans ho, ?_⟩
    intro hstored
    obtain ⟨d, hd, hheld⟩ := hst hstored
    exact ⟨d, hb p rfl d hd, hheld⟩
  | taken p =>
    obtain ⟨hz, hnone, hs⟩ := hk
    exact ⟨hz, (hh p rfl).trans hnone, hs.keep (hb p rfl) (hown p rfl)⟩

/-- What the calls and the callers have does not depend on the files. -/
theorem Shares.same (S : Shares proc own w gs) (hb : w'.blocks = w.blocks)
    (hh : w'.handed = w.handed) : Shares proc own w' gs where
  known j := (S.known j).keep (fun _ _ d hd => by rw [hb, hd]) (fun _ _ => rfl)
    fun _ _ => by rw [hh]
  apart := S.apart
  live h hc := (S.live h (hh ▸ hc)).keep (fun d hd => by rw [hb, hd]) rfl
  owned h hc := by
    rw [hh]
    exact S.owned h hc

theorem Shares.mine (S : Shares proc own w gs) (hon : (gs i).On p) (j : ι) (hj : proc j = proc i)
    (hq : (gs j).On p) : j = i := S.apart j i p hj hq hon

variable [DecidableEq ι]

/-- A step of thread `i` that changes nothing but the struct at `p`, which no other call has. -/
theorem Shares.step (S : Shares proc own w gs) (p : Addr)
    (hmine : ∀ j, proc j = proc i → (gs j).On p → j = i)
    (hout : ∀ q, (gs i).On q → q = p) (hin : ∀ q, g.On q → q = p)
    (hb : ∀ h, h ≠ (proc i, p) → ∀ d, w.blocks h = some (.lock d) → w'.blocks h = some (.lock d))
    (hown : ∀ h, h ≠ (proc i, p) → own' h = own h)
    (hh : ∀ h, h ≠ (proc i, p) → w'.handed h = w.handed h)
    (hlive : w'.handed (proc i, p) ≠ none → Settled own' w' (proc i, p))
    (howned : own' (proc i, p) ≠ none → w'.handed (proc i, p) ≠ none ∨ g.On p)
    (hk : Known proc own' w' i g) : Shares proc own' w' (Function.update gs i g) := by
  have hne : ∀ j q, j ≠ i → (gs j).On q → (proc j, q) ≠ (proc i, p) := by
    intro j q hj hq hc
    have hpq := Prod.mk.inj hc
    exact hj (hmine j hpq.1 (hpq.2 ▸ hq))
  refine ⟨?_, ?_, ?_, ?_⟩
  · intro j
    by_cases hj : j = i
    · subst hj
      rw [Function.update_self]
      exact hk
    · rw [Function.update_of_ne hj]
      exact (S.known j).keep (fun q hq => hb _ (hne j q hj hq)) (fun q hq => hown _ (hne j q hj hq))
        fun q hq => hh _ (hne j q hj hq)
  · intro j l q hjl hj hl
    by_cases hji : j = i
    · by_cases hli : l = i
      · rw [hji, hli]
      · subst hji
        rw [Function.update_self] at hj
        rw [Function.update_of_ne hli] at hl
        exact absurd (hmine l hjl.symm (hin q hj ▸ hl)) hli
    · by_cases hli : l = i
      · subst hli
        rw [Function.update_of_ne hji] at hj
        rw [Function.update_self] at hl
        exact hmine j hjl (hin q hl ▸ hj)
      · rw [Function.update_of_ne hji] at hj
        rw [Function.update_of_ne hli] at hl
        exact S.apart j l q hjl hj hl
  · intro h hc
    by_cases hp : h = (proc i, p)
    · subst hp
      exact hlive hc
    · exact (S.live h (hh h hp ▸ hc)).keep (hb h hp) (hown h hp)
  · intro h hc
    by_cases hp : h = (proc i, p)
    · subst hp
      refine (howned hc).imp_right fun hon => ⟨i, rfl, ?_⟩
      rw [Function.update_self]
      exact hon
    · rw [hown h hp] at hc
      rw [hh h hp]
      refine (S.owned h hc).imp_right fun hon => ?_
      obtain ⟨j, hj, hq⟩ := hon
      refine ⟨j, hj, ?_⟩
      have hji : j ≠ i := by
        intro hc
        subst hc
        exact hp (Prod.ext hj.symm (hout h.2 hq))
      rw [Function.update_of_ne hji]
      exact hq

variable [DecidableEq κ]

/-- A step of a call on the block it has. -/
theorem Shares.work (S : Shares proc own w gs) (hon : (gs i).On p)
    (hb : ∀ h, h ≠ (proc i, p) → ∀ d, w.blocks h = some (.lock d) → w'.blocks h = some (.lock d))
    (hh : w'.handed = w.handed)
    (hs : s = true → ∃ d, w'.blocks (proc i, p) = some (.lock d) ∧ holding d = y ∧ Typed d) :
    Shares proc (Function.update own (proc i, p) (some y)) w'
      (Function.update gs i (.has p y s)) := by
  obtain ⟨hz, hnone, -⟩ := S.on hon
  have hnone' : w'.handed (proc i, p) = none := by rw [hh, hnone]
  refine S.step p (S.mine hon) hon.unique (fun q hq => hq.symm) hb
    (fun h hne => Function.update_of_ne hne _ _) (fun h _ => by rw [hh])
    (fun hc => absurd hnone' hc) (fun _ => .inr rfl) ⟨hz, hnone', Function.update_self _ _ _, hs⟩

/-! ## Requests -/

/-- A reply changes the stake of the call, and all is had as before. -/
def Replied (proc : ι → κ) (gs : ι → Stake) (i : ι) (o : Request) (r : o.Reply) (w' : World ι κ) :
    Prop :=
  ∃ g, next (gs i) o r g ∧ Inv proc w' (Function.update gs i g)

omit [DecidableEq ι] [DecidableEq κ] in
/-- A call that has not stored its struct. -/
theorem not_stored {P : Prop} (h : false = true) : P := absurd h Bool.false_ne_true

omit [DecidableEq κ] in
/-- A reply after which all is as before. -/
theorem replied (B : Books own w) (S : Shares proc own w gs) {o : Request} {r : o.Reply}
    (hn : next (gs i) o r (gs i)) : Replied proc gs i o r w := by
  refine ⟨gs i, hn, own, B, ?_⟩
  rwa [Function.update_eq_self]

omit [DecidableEq ι] [DecidableEq κ] in
theorem Shares.own_eq (S : Shares proc own w gs) (hg : gs i = .has p y s) :
    own (proc i, p) = some y := by
  have hk := S.known i
  rw [hg] at hk
  exact hk.2.2.1

omit [DecidableEq ι] in
theorem setBlock_of_ne {v : Option Block} (hne : h ≠ (proc i, p)) {d : SkyHandleRwlock}
    (hd : w.blocks h = some (.lock d)) :
    (w.setBlock (proc i, p) v).blocks h = some (.lock d) := by
  show Function.update w.blocks (proc i, p) v h = some (.lock d)
  rw [Function.update_of_ne hne, hd]

theorem reply_alloc (B : Books own w) (S : Shares proc own w gs) {r : Addr}
    (hidle : gs i = .idle) (he : exec b (proc i) .alloc x w = some (w', some r)) :
    Replied proc gs i .alloc r w' := by
  rcases allocate_cases he with ⟨hr, rfl⟩ | ⟨p, hr, hp, hfree, rfl⟩
  · obtain rfl := Option.some.inj hr
    exact replied B S (hidle.trans (if_pos rfl).symm)
  · obtain rfl := Option.some.inj hr
    have hnone := B.own_none hfree
    have hbooks := B.setStruct (h := (proc i, r)) (v := some (.lock zeroRwlock))
      (x := some (none, none)) (by simp [hfree]) (by simp) (by simp)
      (by rw [held, hnone, Option.getD_some, Option.getD_none])
    refine ⟨.has r (none, none) false, (if_neg hp).symm, _, hbooks, ?_⟩
    have hh : w.handed (proc i, r) = none := by
      by_contra hc
      obtain ⟨d, hd, -⟩ := S.live _ hc
      rw [hfree] at hd
      cases hd
    refine S.step r ?_ (fun _ hq => absurd hq (not_on_idle hidle)) (fun q hq => hq.symm)
      (fun _ hne _ hd => setBlock_of_ne hne hd) (fun h hne => Function.update_of_ne hne _ _)
      (fun _ _ => rfl) (fun hc => absurd hh hc) (fun _ => .inr rfl)
      ⟨hp, hh, Function.update_self _ _ _, not_stored⟩
    intro j hj hon
    exact absurd (hj ▸ hnone) (S.on hon).2.2

theorem reply_free (B : Books own w) (S : Shares proc own w gs) {r : Unit}
    (hg : gs i = .has p (none, none) s)
    (he : exec b (proc i) (.free p) x w = some (w', some r)) :
    Replied proc gs i (.free p) r w' := by
  have hown := S.own_eq hg
  obtain ⟨d, hd⟩ := B.block hown
  simp only [exec, hd] at he
  cases he
  have hbooks := B.setStruct (h := (proc i, p)) (v := none) (x := none) (by simp [hd]) (by simp)
    (by simp) (held_eq hown).symm
  refine ⟨.idle, rfl, _, hbooks, ?_⟩
  refine S.step p (S.mine (on_has hg)) (on_has hg).unique (fun _ hq => hq.elim)
    (fun _ hne _ hd => setBlock_of_ne hne hd) (fun h hne => Function.update_of_ne hne _ _)
    (fun _ _ => rfl) (fun hc => absurd (S.on (on_has hg)).2.1 hc) ?_ trivial
  intro hc
  exact absurd (Function.update_self _ _ _) hc

theorem reply_allocName (B : Books own w) (S : Shares proc own w gs) {size : Nat} {r : Addr}
    {file : Option Nat} (hg : gs i = .has p (none, file) s)
    (he : exec b (proc i) (.allocName size) x w = some (w', some r)) :
    Replied proc gs i (.allocName size) r w' := by
  rcases allocate_cases he with ⟨hr, rfl⟩ | ⟨n, hr, hn, hfree, rfl⟩
  · obtain rfl := Option.some.inj hr
    exact replied B S ⟨p, file, s, hg, (if_pos rfl).symm⟩
  · obtain rfl := Option.some.inj hr
    refine ⟨.has p (some r, file) false, ⟨p, file, s, hg, (if_neg hn).symm⟩, _,
      B.giveName hfree (S.own_eq hg), ?_⟩
    refine S.work (on_has hg) ?_ rfl not_stored
    intro h _ d hd
    refine setBlock_of_ne ?_ hd
    intro hc
    rw [hc, hfree] at hd
    cases hd

theorem reply_freeName (B : Books own w) (S : Shares proc own w gs) {r : Unit}
    {file : Option Nat} (hg : gs i = .has p (some n, file) s)
    (he : exec b (proc i) (.freeName n) x w = some (w', some r)) :
    Replied proc gs i (.freeName n) r w' := by
  have hown := S.own_eq hg
  have hname : w.blocks (proc i, n) = some .name :=
    B.names.of_has (show (held own (proc i, p)).1 = some n by rw [held_eq hown])
  simp only [exec, if_pos hname] at he
  cases he
  refine ⟨.has p (none, file) false, ⟨p, file, s, hg, rfl⟩, _, B.takeName hown, ?_⟩
  refine S.work (on_has hg) ?_ rfl not_stored
  intro h _ d hd
  refine setBlock_of_ne ?_ hd
  intro hc
  rw [hc, hname] at hd
  cases hd

theorem reply_store (B : Books own w) (S : Shares proc own w gs) {r : Unit}
    (hg : gs i = .has p (holding d) s) (ht : Typed d)
    (he : exec b (proc i) (.store p d) x w = some (w', some r)) :
    Replied proc gs i (.store p d) r w' := by
  have hown := S.own_eq hg
  obtain ⟨d', hd'⟩ := B.block hown
  simp only [exec, hd'] at he
  cases he
  have hbooks := B.setStruct (h := (proc i, p)) (v := some (.lock d)) (x := some (holding d))
    (by simp [hd']) (by simp) (by simp) (held_eq hown).symm
  refine ⟨.has p (holding d) true, rfl, _, hbooks, ?_⟩
  refine S.work (on_has hg) (fun _ hne _ hd => setBlock_of_ne hne hd) rfl ?_
  intro _
  exact ⟨d, Function.update_self _ _ _, rfl, ht⟩

theorem reply_load (B : Books own w) (S : Shares proc own w gs) {r : SkyHandleRwlock}
    (hm : may (gs i) (.load p)) (he : exec b (proc i) (.load p) x w = some (w', some r)) :
    Replied proc gs i (.load p) r w' := by
  cases hm with
  | inl hg =>
    have hk := S.known i
    rw [hg] at hk
    obtain ⟨-, -, d, hd, hown, hwell, ht⟩ := hk
    simp only [exec, hd] at he
    cases he
    have hsame : Function.update own (proc i, p) (some (holding r)) = own := by
      rw [← hown, Function.update_eq_self]
    have hshares : Shares proc (Function.update own (proc i, p) (some (holding r))) w
        (Function.update gs i (.has p (holding r) true)) :=
      S.work (on_taken hg) (fun _ _ _ hd => hd) rfl fun _ => ⟨r, hd, rfl, ht⟩
    rw [hsame] at hshares
    exact ⟨.has p (holding r) true, .inl ⟨hg, hwell, ht, rfl⟩, own, B, hshares⟩
  | inr hg =>
    have hw : w' = w := by
      simp only [exec] at he
      split at he
      · cases he
        rfl
      · cases he
    rw [hw]
    exact replied B S (.inr ⟨hg, hg⟩)

omit [DecidableEq ι] in
/-- A file that is opened gets the descriptor, and its path maybe a new inode. -/
theorem openFile_cases {path : List UInt8} {create : Bool}
    (h : w.openFile (proc i, fd) path create = some w') :
    w'.blocks = w.blocks ∧ w'.handed = w.handed ∧ w'.locks = w.locks ∧
      ∃ f, w'.opened = Function.update w.opened (proc i, fd) (some f) := by
  unfold World.openFile at h
  split at h
  · cases h
    exact ⟨rfl, rfl, rfl, _, rfl⟩
  · cases h
    exact ⟨rfl, rfl, rfl, _, rfl⟩
  · cases h

theorem reply_openFile (B : Books own w) (S : Shares proc own w gs) {path : List UInt8}
    {create : Bool} {r : Option Nat} {name : Option Addr} (hg : gs i = .has p (name, none) s)
    (he : exec b (proc i) (.openFile path create) x w = some (w', some r)) :
    Replied proc gs i (.openFile path create) r w' := by
  have hrefuse : some (w, some (none : Option Nat)) = some (w', some r) →
      Replied proc gs i (.openFile path create) r w' := by
    intro he
    cases he
    exact replied B S rfl
  cases x with
  | place fd =>
    by_cases hfree : w.opened (proc i, fd) = none
    · simp only [exec, if_pos hfree] at he
      cases hv : w.openFile (proc i, fd) path create with
      | none =>
        rw [hv] at he
        exact hrefuse he
      | some v =>
        rw [hv] at he
        cases he
        obtain ⟨hb, hh, hl, f, ho⟩ := openFile_cases hv
        refine ⟨.has p (name, some fd) false, ⟨p, name, s, hg, rfl⟩, _,
          B.openFile f hfree (S.own_eq hg) hb ho hl, ?_⟩
        exact S.work (on_has hg) (fun _ _ d hd => by rw [hb, hd]) hh not_stored
    · simp only [exec, if_neg hfree] at he
      cases he
  | succeed => exact hrefuse he
  | fail => exact hrefuse he
  | text left => exact hrefuse he
  | tick t => exact hrefuse he
  | drop => exact hrefuse he

theorem reply_close (B : Books own w) (S : Shares proc own w gs) {name : Option Addr}
    (hg : gs i = .has p (name, some fd) s) :
    Replied proc gs i (.close fd) () (w.closeAt (proc i, fd)) := by
  refine ⟨.has p (name, none) false, ⟨p, name, s, hg, rfl⟩, _, B.closeAt (S.own_eq hg), ?_⟩
  exact S.work (on_has hg) (fun _ _ _ hd => hd) rfl not_stored

omit [DecidableEq ι] in
/-- Whatever `flock` does to the locks, they are of open files. -/
theorem Books.release (B : Books own w) (f : κ × Nat) :
    Books own (w.setLocks (FileLock.release w.locks f)) :=
  B.same rfl rfl fun a ha => B.locks a (FileLock.mem_release.1 ha).1

omit [DecidableEq ι] in
theorem flock_cases {mode : Option LockMode} {nonBlocking : Bool} {f : κ × Nat} {r : Option Int}
    (B : Books own w) (h : w.flock f mode nonBlocking = some (w', r)) :
    Books own w' ∧ w'.blocks = w.blocks ∧ w'.handed = w.handed := by
  unfold World.flock at h
  split at h
  · cases h
    exact ⟨B, rfl, rfl⟩
  · cases h
    exact ⟨B.release f, rfl, rfl⟩
  · next file mode ho =>
    split at h
    · cases h
      refine ⟨B.same rfl rfl ?_, rfl, rfl⟩
      intro a ha
      rcases FileLock.mem_grant.1 ha with rfl | ⟨ha, -⟩
      · simp [ho]
      · exact B.locks a ha
    · split at h
      · cases h
        exact ⟨B, rfl, rfl⟩
      · cases h

theorem reply_flock (B : Books own w) (S : Shares proc own w gs) {mode : Option LockMode}
    {nonBlocking : Bool} {rc : Int}
    (he : exec b (proc i) (.flock fd mode nonBlocking) x w = some (w', some rc)) :
    Replied proc gs i (.flock fd mode nonBlocking) rc w' := by
  have hflock : w.flock (proc i, fd) mode nonBlocking = some (w', some rc) →
      Replied proc gs i (.flock fd mode nonBlocking) rc w' := by
    intro he
    obtain ⟨B', hb, hh⟩ := flock_cases B he
    exact replied B' (S.same hb hh) rfl
  cases x with
  | fail =>
    cases he
    exact replied B S rfl
  | drop =>
    cases mode with
    | none => cases he
    | some mode => cases he
  | succeed => exact hflock he
  | place a => exact hflock he
  | text left => exact hflock he
  | tick t => exact hflock he

theorem reply_print (B : Books own w) (S : Shares proc own w gs) {size : Nat}
    {before : List UInt8} {name : CStr} {r : Int × List UInt8}
    (he : exec b (proc i) (.print size before name) x w = some (w', some r)) :
    Replied proc gs i (.print size before name) r w' := by
  cases x <;>
  · cases he
    exact replied B S rfl

theorem reply_remove (B : Books own w) (S : Shares proc own w gs) {path : List UInt8} {r : Unit}
    (he : exec b (proc i) (.remove path) x w = some (w', some r)) :
    Replied proc gs i (.remove path) r w' := by
  by_cases hx : x = .fail
  · simp only [exec, if_pos hx] at he
    cases he
    exact replied B S rfl
  · simp only [exec, if_neg hx] at he
    cases he
    have hbooks : Books own (w.setFile path none) := B.same rfl rfl B.locks
    have hshares : Shares proc own (w.setFile path none) gs := S.same rfl rfl
    exact replied hbooks hshares rfl

theorem reply (B : Books own w) (S : Shares proc own w gs) {o : Request} {r : o.Reply}
    (hm : may (gs i) o) (he : exec b (proc i) o x w = some (w', some r)) :
    Replied proc gs i o r w' := by
  have hquiet : o.Quiet → next (gs i) o r (gs i) → Replied proc gs i o r w' := by
    intro hq hn
    obtain ⟨rfl, -⟩ := exec_quiet hq he
    exact replied B S hn
  cases o with
  | alloc => exact reply_alloc B S hm he
  | free p =>
    obtain ⟨s, hg⟩ := hm
    exact reply_free B S hg he
  | allocName size =>
    obtain ⟨p, file, s, hg⟩ := hm
    exact reply_allocName B S hg he
  | freeName n =>
    obtain ⟨p, file, s, hg⟩ := hm
    exact reply_freeName B S hg he
  | store p d =>
    obtain ⟨⟨s, hg⟩, ht⟩ := hm
    exact reply_store B S hg ht he
  | load p => exact reply_load B S hm he
  | print size before name => exact reply_print B S he
  | openFile path create =>
    obtain ⟨p, name, s, hg⟩ := hm
    exact reply_openFile B S hg he
  | close fd =>
    obtain ⟨p, name, s, hg⟩ := hm
    cases he
    exact reply_close B S hg
  | remove path => exact reply_remove B S he
  | flock fd mode nonBlocking => exact reply_flock B S he
  | pthreadInit | pthreadDestroy | pthreadLock | pthreadUnlock => exact hquiet trivial rfl
  | systickGet | systickSleep | rounds | spin | validate => exact hquiet trivial rfl

/-! ## Calls -/

/-- Only a handle that the callers have is given to a `destroy`. -/
def Gives (proc : ι → κ) (i : ι) (c : Call) (w : World ι κ) : Prop :=
  ∀ p, c = .destroy p → p ≠ 0 → w.handed (proc i, p) ≠ none

theorem Shares.takeBack (S : Shares proc own w gs) (hz : p ≠ 0)
    (hh : w.handed (proc i, p) ≠ none) (hidle : gs i = .idle) :
    Shares proc own (((w.setHolds i p none).setUser (proc i, p) none).setHanded (proc i, p) none)
      (Function.update gs i (.taken p)) := by
  have hnone : (((w.setHolds i p none).setUser (proc i, p) none).setHanded
      (proc i, p) none).handed (proc i, p) = none := Function.update_self _ _ _
  refine S.step p ?_ (fun _ hq => absurd hq (not_on_idle hidle)) (fun q hq => hq.symm)
    (fun _ _ _ hd => hd) (fun _ _ => rfl) (fun _ hne => Function.update_of_ne hne _ _)
    (fun hc => absurd hnone hc) (fun _ => .inr rfl)
    ⟨hz, hnone, (S.live _ hh).keep (fun _ hd => hd) rfl⟩
  intro j hj hq
  exact absurd (hj ▸ (S.on hq).2.1) hh

omit [DecidableEq κ] in
/-- A start or a return after which all is as before. -/
theorem Inv.quiet (hinv : Inv proc w gs) (hidle : gs i = .idle) (hb : w'.blocks = w.blocks)
    (ho : w'.opened = w.opened) (hh : w'.handed = w.handed) (hl : w'.locks = w.locks) :
    Inv proc w' (Function.update gs i .idle) := by
  obtain ⟨own, B, S⟩ := hinv
  rw [← hidle, Function.update_eq_self]
  exact ⟨own, B.same hb ho (hl ▸ B.locks), S.same hb hh⟩

theorem Inv.takeUp (hinv : Inv proc w gs) {c : Call} (hc : Gives proc i c w)
    (hidle : gs i = .idle) :
    Inv proc (takeUp (proc i) i c w) (Function.update gs i (firstStake c)) := by
  unfold Rwlock.takeUp
  cases c with
  | destroy p =>
    by_cases hz : p = 0
    · rw [if_pos (show (Call.destroy p).handle = 0 from hz), firstStake, if_pos hz]
      exact hinv.quiet hidle rfl rfl rfl rfl
    · rw [if_neg (show ¬ (Call.destroy p).handle = 0 from hz), firstStake, if_neg hz]
      obtain ⟨own, B, S⟩ := hinv
      exact ⟨own, B.same rfl rfl B.locks, S.takeBack hz (hc p rfl hz) hidle⟩
  | create name => exact hinv.quiet hidle rfl rfl rfl rfl
  | «open» name => exact hinv.quiet hidle rfl rfl rfl rfl
  | wrlock p timeout =>
    split
    · exact hinv.quiet hidle rfl rfl rfl rfl
    · exact hinv.quiet hidle rfl rfl rfl rfl
  | rdlock p timeout =>
    split
    · exact hinv.quiet hidle rfl rfl rfl rfl
    · exact hinv.quiet hidle rfl rfl rfl rfl
  | unlock p =>
    split
    · exact hinv.quiet hidle rfl rfl rfl rfl
    · exact hinv.quiet hidle rfl rfl rfl rfl

theorem Inv.handOut (hinv : Inv proc w gs) {path : Option (List UInt8)}
    (hp : Hands (gs i) p) :
    Inv proc (handOut (proc i) path p w) (Function.update gs i .idle) := by
  obtain ⟨own, B, S⟩ := hinv
  unfold Rwlock.handOut
  rcases hp with ⟨hz, hidle⟩ | ⟨y, hwell, hg⟩
  · rw [if_pos hz, ← hidle, Function.update_eq_self]
    exact ⟨own, B, S⟩
  · have hk := S.known i
    rw [hg] at hk
    obtain ⟨hz, -, hown, hst⟩ := hk
    obtain ⟨d, hd, rfl, ht⟩ := hst rfl
    rw [if_neg hz]
    refine ⟨own, B.same rfl rfl B.locks, ?_⟩
    refine S.step p (S.mine (on_has hg)) (on_has hg).unique (fun _ hq => hq.elim)
      (fun _ _ _ hd => hd) (fun _ _ => rfl) (fun _ hne => Function.update_of_ne hne _ _)
      (fun _ => ⟨d, hd, hown, hwell, ht⟩) ?_ trivial
    intro _
    left
    intro hc
    cases (Function.update_self _ _ _).symm.trans hc

theorem Inv.putDown (hinv : Inv proc w gs) {c : Call} {r : Resp} (hp : post c (gs i) r) :
    Inv proc (putDown nameMax (proc i) i c r w) (Function.update gs i .idle) := by
  have hlocked : ∀ p mode r, gs i = .idle →
      Inv proc (locked (proc i) i p mode r w) (Function.update gs i .idle) := by
    intro p mode r hg
    unfold locked
    split
    · exact hinv.quiet hg rfl rfl rfl rfl
    · split
      · exact hinv.quiet hg rfl rfl rfl rfl
      · exact hinv.quiet hg rfl rfl rfl rfl
  cases c with
  | create name =>
    cases r with
    | handle p => exact hinv.handOut hp
    | locked r => exact hinv.quiet hp rfl rfl rfl rfl
    | done => exact hinv.quiet hp rfl rfl rfl rfl
  | «open» name =>
    cases r with
    | handle p => exact hinv.handOut hp
    | locked r => exact hinv.quiet hp rfl rfl rfl rfl
    | done => exact hinv.quiet hp rfl rfl rfl rfl
  | wrlock p timeout =>
    cases r with
    | locked r => exact hlocked p .exclusive r hp
    | handle q => exact hinv.quiet hp rfl rfl rfl rfl
    | done => exact hinv.quiet hp rfl rfl rfl rfl
  | rdlock p timeout =>
    cases r with
    | locked r => exact hlocked p .shared r hp
    | handle q => exact hinv.quiet hp rfl rfl rfl rfl
    | done => exact hinv.quiet hp rfl rfl rfl rfl
  | unlock p =>
    unfold Rwlock.putDown
    dsimp only
    split
    · exact hinv.quiet hp rfl rfl rfl rfl
    · exact hinv.quiet hp rfl rfl rfl rfl
  | destroy p => exact hinv.quiet hp rfl rfl rfl rfl

theorem discipline : (threads proc b nameMax).Discipline (Gives proc) (fun _ _ _ _ => True)
    (Inv proc) .idle (fun _ => firstStake) (fun _ => mayIn) (fun _ _ => next) (fun _ => post) where
  safe _ c _ _ := call_safe c
  enter i c w gs hc hg h := h.takeUp hc hg
  reply i c o x w gs w' r _ hm h he := by
    obtain ⟨own, B, S⟩ := h
    exact reply B S hm.1 he
  wait i c o x w gs w' _ _ h he := by
    obtain ⟨own, B, S⟩ := h
    obtain ⟨fd, mode, nonBlocking, rfl, rfl⟩ := exec_waits he
    exact ⟨own, B.release _, S.same rfl rfl⟩
  leave i c r w gs hp h := h.putDown hp

/-! ## Runs -/

/-- The descriptor is that of a handle the callers have. -/
def LiveFile (w : World ι κ) (f : κ × Nat) : Prop :=
  ∃ p d, w.handed (f.1, p) ≠ none ∧ w.blocks (f.1, p) = some (.lock d) ∧ d.fdRwlock = some f.2

/-- What there is in the process is that of the handles the callers have. -/
structure Accounted (w : World ι κ) (k : κ) : Prop where
  structs : ∀ p, (∃ d, w.blocks (k, p) = some (.lock d)) ↔ w.handed (k, p) ≠ none
  names : ∀ n, w.blocks (k, n) = some .name ↔ ∃ p d path, w.handed (k, p) ≠ none ∧
    w.blocks (k, p) = some (.lock d) ∧ d.fileName = some (n, path)
  files : ∀ fd, w.opened (k, fd) ≠ none ↔ LiveFile w (k, fd)

/-- What is freed, written or closed is there. -/
def Valid (w : World ι κ) (k : κ) : Request → Prop
  | .free p | .store p _ => ∃ d, w.blocks (k, p) = some (.lock d)
  | .freeName n => w.blocks (k, n) = some .name
  | .close fd => w.opened (k, fd) ≠ none
  | _ => True

section
omit [DecidableEq ι] [DecidableEq κ]

theorem own_of_held {f : Holding → Prop} (hf : f (held own h)) (hnone : ¬ f (none, none)) :
    ∃ y, own h = some y ∧ f y := by
  unfold held at hf
  cases ho : own h with
  | none =>
    rw [ho] at hf
    exact absurd hf hnone
  | some y =>
    rw [ho] at hf
    exact ⟨y, rfl, hf⟩

theorem Shares.valid (S : Shares proc own w gs) (B : Books own w) {o : Request}
    (hm : may (gs i) o) : Valid w (proc i) o := by
  cases o with
  | free p =>
    obtain ⟨s, hg⟩ := hm
    exact B.block (S.own_eq hg)
  | store p d =>
    obtain ⟨⟨s, hg⟩, -⟩ := hm
    exact B.block (S.own_eq hg)
  | freeName n =>
    obtain ⟨p, file, s, hg⟩ := hm
    exact B.names.of_has (show (held own (proc i, p)).1 = some n by rw [held_eq (S.own_eq hg)])
  | close fd =>
    obtain ⟨p, name, s, hg⟩ := hm
    exact B.files.of_has (show (held own (proc i, p)).2 = some fd by rw [held_eq (S.own_eq hg)])
  | _ => trivial

/-- A process without a call has only handles. -/
theorem Shares.settled (S : Shares proc own w gs) {k : κ}
    (hidle : ∀ i, proc i = k → gs i = .idle) (hown : own (k, p) ≠ none) :
    w.handed (k, p) ≠ none ∧ Settled own w (k, p) := by
  have hh : w.handed (k, p) ≠ none := by
    rcases S.owned _ hown with hh | ⟨i, hi, hon⟩
    · exact hh
    · exact absurd hon (not_on_idle (hidle i hi))
  exact ⟨hh, S.live _ hh⟩

theorem Shares.accounted (S : Shares proc own w gs) (B : Books own w) {k : κ}
    (hidle : ∀ i, proc i = k → gs i = .idle) : Accounted w k := by
  refine ⟨?_, ?_, ?_⟩
  · intro p
    rw [B.structs]
    constructor
    · exact fun hown => (S.settled hidle hown).1
    · intro hh
      obtain ⟨d, -, hown, -⟩ := S.live _ hh
      simp [hown]
  · intro n
    rw [B.names.iff]
    constructor
    · intro hp
      obtain ⟨p, hp⟩ := hp
      obtain ⟨y, hown, hy⟩ := own_of_held (f := fun y => y.1 = some n) hp (by simp)
      obtain ⟨hh, d, hd, hown', -⟩ := S.settled hidle (p := p) (by simp [hown])
      obtain rfl := Option.some.inj (hown.symm.trans hown')
      obtain ⟨⟨n', path⟩, hname, rfl⟩ := Option.map_eq_some_iff.1 hy
      exact ⟨p, d, path, hh, hd, hname⟩
    · intro hp
      obtain ⟨p, d, path, hh, hd, hname⟩ := hp
      obtain ⟨d', hd', hown, -⟩ := S.live _ hh
      cases hd.symm.trans hd'
      exact ⟨p, by rw [held_eq hown, holding, hname]; rfl⟩
  · intro fd
    rw [B.files.iff]
    constructor
    · intro hp
      obtain ⟨p, hp⟩ := hp
      obtain ⟨y, hown, hy⟩ := own_of_held (f := fun y => y.2 = some fd) hp (by simp)
      obtain ⟨hh, d, hd, hown', -⟩ := S.settled hidle (p := p) (by simp [hown])
      obtain rfl := Option.some.inj (hown.symm.trans hown')
      exact ⟨p, d, hh, hd, hy⟩
    · intro hp
      obtain ⟨p, d, hh, hd, hfd⟩ := hp
      obtain ⟨d', hd', hown, -⟩ := S.live _ hh
      cases hd.symm.trans hd'
      exact ⟨p, by rw [held_eq hown, holding, hfd]⟩

end

/-- What the runs reach: the books are kept, and each call has what it should. -/
abbrev HoldsIn (proc : ι → κ) (t : Conf ι (World ι κ) Request Request.Reply Call Resp) : Prop :=
  System.Discipline.Holds (Inv proc) Stake.idle (fun _ => mayIn) (fun _ _ => next) (fun _ => post) t

theorem holds_of_runs {as : List (Act ι Call Choice)}
    {t : Conf ι (World ι κ) Request Request.Reply Call Resp}
    (hr : (threads proc b nameMax).Runs (Gives proc) (fun _ _ _ _ => True)
      (System.idle (World.start ι κ)) as t) : HoldsIn proc t := by
  refine discipline.runs hr ⟨fun _ => .idle, ⟨fun _ => none, ?_, ?_⟩, fun _ => rfl⟩
  · refine ⟨?_, ⟨?_, ?_⟩, ⟨?_, ?_⟩, fun _ ha => absurd ha List.not_mem_nil⟩ <;>
    simp [System.idle, World.start, held]
  · exact ⟨fun _ => trivial, fun _ _ _ _ hon => hon.elim, fun h hc => absurd rfl hc,
      fun h hc => absurd rfl hc⟩

omit [DecidableEq ι] [DecidableEq κ] in
theorem HoldsIn.typed {t : Conf ι (World ι κ) Request Request.Reply Call Resp}
    (ht : HoldsIn proc t) (hh : t.shared.handed h ≠ none)
    (hd : t.shared.blocks h = some (.lock d)) : Typed d := by
  obtain ⟨gs, ⟨own, -, S⟩, -⟩ := ht
  obtain ⟨d', hd', -, -, htyped⟩ := S.live h hh
  rw [hd] at hd'
  cases hd'
  exact htyped

/-- In every state of a run in which only handles that the callers have are destroyed: what a call
is about to free, write or close is there; a process without a call in progress has exactly the
blocks and descriptors of its handles; and every lock is of an open file. -/
theorem run_accounted {as : List (Act ι Call Choice)}
    {t : Conf ι (World ι κ) Request Request.Reply Call Resp}
    (hr : (threads proc b nameMax).Runs (Gives proc) (fun _ _ _ _ => True)
      (System.idle (World.start ι κ)) as t) :
    (∀ i c o f, t.calls i = some (c, .req o f) → Valid t.shared (proc i) o) ∧
      (∀ k, (∀ i, proc i = k → t.calls i = none) → Accounted t.shared k) ∧
      ∀ a ∈ t.shared.locks, t.shared.opened a.file ≠ none := by
  obtain ⟨gs, ⟨own, B, S⟩, hknows⟩ := holds_of_runs hr
  refine ⟨?_, ?_, B.locks⟩
  · intro i c o f hcall
    have hk := hknows i
    rw [hcall] at hk
    exact S.valid B hk.1.1
  · intro k hnone
    refine S.accounted B ?_
    intro i hi
    have hk := hknows i
    rw [hnone i hi] at hk
    exact hk

abbrev RunsGiving : Conf Bool (World Bool Bool) Request Request.Reply Call Resp →
    List (Act Bool Call Choice) →
    Conf Bool (World Bool Bool) Request Request.Reply Call Resp → Prop :=
  twoProcesses.Runs (Gives fun i => i) (fun _ _ _ _ => True)

/-- A whole call of one process. -/
theorem runs_giving {i : Bool} {c : Call} {xs : List Choice}
    {t t' : Conf Bool (World Bool Bool) Request Request.Reply Call Resp}
    (hc : Gives (fun i => i) i c t.shared) (hr : twoProcesses.run t (calls i c xs) = some t') :
    RunsGiving t (calls i c xs) t' := System.runs_call hc (fun _ _ => trivial) hr

/-- A process has created `"a"` and destroyed it, while another one has opened it. -/
theorem run_accounted_destroyed : ∃ as t,
    RunsGiving (System.idle (World.start Bool Bool)) as t ∧
    t.shared.handed (false, 8) = none ∧ t.shared.handed (true, 8) ≠ none ∧
    (∀ i c o f, t.calls i = some (c, .req o f) → Valid t.shared i o) ∧
    (∀ k, (∀ i, i = k → t.calls i = none) → Accounted t.shared k) ∧
    ∀ a ∈ t.shared.locks, t.shared.opened a.file ≠ none := by
  obtain ⟨t1, hcreate, t2, hopen, hh, t3, hdestroy, hgone, hleft⟩ :
      ∃ t1, twoProcesses.run (System.idle (World.start Bool Bool)) (createA false) = some t1 ∧
      ∃ t2, twoProcesses.run t1 (openA true) = some t2 ∧ t2.shared.handed (false, 8) ≠ none ∧
      ∃ t3, twoProcesses.run t2 (destroyA false) = some t3 ∧
        t3.shared.handed (false, 8) = none ∧ t3.shared.handed (true, 8) ≠ none :=
    ⟨_, rfl, _, rfl, Option.some_ne_none _, _, rfl, rfl, Option.some_ne_none _⟩
  have hcreate := runs_giving (by intro p hc; cases hc) hcreate
  have hopen := runs_giving (by intro p hc; cases hc) hopen
  have hgives : Gives (fun i => i) false (.destroy 8) t2.shared := by
    intro p hc _
    cases hc
    exact hh
  have hruns := hcreate.append (hopen.append (runs_giving hgives hdestroy))
  exact ⟨_, t3, hruns, hgone, hleft, run_accounted hruns⟩

/-! ## Waiting -/

omit [DecidableEq ι] in
/-- `flock` waits for a lock of another open file that excludes the one asked for. -/
theorem flock_waits {f : κ × Nat} {mode : Option LockMode} {nonBlocking : Bool}
    (h : w.flock f mode nonBlocking = none) :
    ∃ file m a, w.opened f = some file ∧ mode = some m ∧ nonBlocking = false ∧ a ∈ w.locks ∧
      a.file ≠ f ∧ a.inode = file.inode ∧ (a.mode = .exclusive ∨ m = .exclusive) := by
  unfold World.flock at h
  split at h
  · cases h
  · cases h
  · next file m ho =>
    split at h
    · cases h
    · next hfree =>
      split at h
      · cases h
      · next hnb =>
        simp only [FileLock.Free, not_forall] at hfree
        obtain ⟨a, ha, hne, hinode, hmode⟩ := hfree
        refine ⟨file, m, a, ho, rfl, by simpa using hnb, ha, hne, hinode, ?_⟩
        cases hm : a.mode with
        | exclusive => exact .inl rfl
        | shared =>
          cases m with
          | exclusive => exact .inr rfl
          | shared => exact absurd ⟨hm, rfl⟩ hmode

omit [DecidableEq ι] [DecidableEq κ] in
theorem HoldsIn.opened {t : Conf ι (World ι κ) Request Request.Reply Call Resp}
    (ht : HoldsIn proc t) {a : FileLock (κ × Nat) Nat} (ha : a ∈ t.shared.locks) :
    t.shared.opened a.file ≠ none := by
  obtain ⟨gs, ⟨own, B, -⟩, -⟩ := ht
  exact B.locks a ha

/-- The descriptor is that of a struct that the call is about to fill in, has filled in and is about
to return, or gives up. -/
def InProgress (w : World ι κ) (k : κ) (fd : Nat) (c : Call) (x : RwlockM Resp) : Prop :=
  ¬ Keeps c ∧ ∃ p d, d.fdRwlock = some fd ∧
    ((∃ f, x = .req (.store p d) f) ∨
      w.blocks (k, p) = some (.lock d) ∧ (x = .done (.handle p) ∨ c = .destroy p))

omit [DecidableEq ι] [DecidableEq κ] in
/-- A call with a descriptor. -/
theorem inProgress_of_has {c : Call} {q : RwlockM Resp} (hk : Known proc own w i (gs i))
    (hq : q.Safe (mayIn c) next (post c) (gs i)) (hon : (gs i).On p)
    (hown : own (proc i, p) = some y) (hy : y.2 = some fd) : InProgress w (proc i) fd c q := by
  cases hg : gs i with
  | idle =>
    rw [hg] at hon
    exact hon.elim
  | taken p' =>
    rw [hg] at hon hk hq
    cases hon
    obtain ⟨-, -, d, hd, hown', -⟩ := hk
    cases hown.symm.trans hown'
    cases q with
    | req o f =>
      obtain rfl : c = .destroy p := hq.1.2
      exact ⟨id, p, d, hy, .inr ⟨hd, .inr rfl⟩⟩
    | done r =>
      rcases post_cases hq with hidle | ⟨-, q, x, -, hhas⟩
      · cases hidle
      · cases hhas
  | has p' x stored =>
    rw [hg] at hon hk hq
    cases hon
    obtain ⟨-, -, hown', hstruct⟩ := hk
    cases hown.symm.trans hown'
    obtain ⟨name, file⟩ := y
    cases hy
    cases q with
    | req o f =>
      obtain ⟨⟨hmay, hfits⟩, -⟩ := hq
      cases stored with
      | false =>
        obtain ⟨hkeeps, d, rfl⟩ := hfits
        obtain ⟨⟨s, hheld⟩, -⟩ := hmay
        exact ⟨hkeeps, p, d, congrArg Prod.snd (Stake.has.inj hheld).2.1.symm, .inl ⟨f, rfl⟩⟩
      | true =>
        obtain rfl : c = .destroy p := hfits
        obtain ⟨d, hd, hheld, -⟩ := hstruct rfl
        exact ⟨id, p, d, congrArg Prod.snd hheld, .inr ⟨hd, .inr rfl⟩⟩
    | done r =>
      rcases post_cases hq with hidle | ⟨hkeeps, q, x, rfl, hhas⟩
      · cases hidle
      · cases hhas
        obtain ⟨d, hd, hheld, -⟩ := hstruct rfl
        exact ⟨hkeeps, p, d, congrArg Prod.snd hheld, .inr ⟨hd, .inl rfl⟩⟩

omit [DecidableEq ι] [DecidableEq κ] in
/-- An open file is that of a handle, or of a call that makes a handle or gives one up. -/
theorem HoldsIn.owner {t : Conf ι (World ι κ) Request Request.Reply Call Resp}
    (ht : HoldsIn proc t) {f : κ × Nat} (hopen : t.shared.opened f ≠ none) :
    LiveFile t.shared f ∨ ∃ j c x, proc j = f.1 ∧ t.calls j = some (c, x) ∧
      InProgress t.shared f.1 f.2 c x := by
  obtain ⟨gs, ⟨own, B, S⟩, hknows⟩ := ht
  obtain ⟨p, hp⟩ := (B.files.iff f.1 f.2).1 hopen
  obtain ⟨y, hown, hy⟩ := own_of_held (f := fun y => y.2 = some f.2) hp (by simp)
  rcases S.owned (f.1, p) (by simp [hown]) with hh | ⟨j, hj, hon⟩
  · obtain ⟨d, hd, hown', -⟩ := S.live _ hh
    obtain rfl := Option.some.inj (hown.symm.trans hown')
    exact .inl ⟨p, d, hh, hd, hy⟩
  · have hk := hknows j
    cases hcall : t.calls j with
    | none =>
      rw [hcall] at hk
      exact absurd hon (not_on_idle hk)
    | some cx =>
      obtain ⟨c, x⟩ := cx
      rw [hcall] at hk
      have hj' : proc j = f.1 := hj
      rw [← hj'] at hown ⊢
      exact .inr ⟨j, c, x, rfl, hcall, inProgress_of_has (S.known j) hk hon hown hy⟩

/-- A lock call waits only for a lock on its file, of another open file, that excludes the one it
asks for; and that is the file of a handle the callers have, or of one that a call is making or
giving up. Locks of handles that are gone are not waited for. -/
theorem waits_for_live {as : List (Act ι Call Choice)}
    {t : Conf ι (World ι κ) Request Request.Reply Call Resp}
    (hr : (threads proc b nameMax).Runs (Gives proc) (fun _ _ _ _ => True)
      (System.idle (World.start ι κ)) as t)
    {c : Call} {mode : Option LockMode} {nonBlocking : Bool} {f : Int → RwlockM Resp}
    (hcall : t.calls i = some (c, .req (.flock fd mode nonBlocking) f))
    (hwait : (threads proc b nameMax).step t (.run i .succeed) = none) :
    ∃ file m a, t.shared.opened (proc i, fd) = some file ∧ mode = some m ∧ nonBlocking = false ∧
      a ∈ t.shared.locks ∧ a.file ≠ (proc i, fd) ∧ a.inode = file.inode ∧
      (a.mode = .exclusive ∨ m = .exclusive) ∧
      (LiveFile t.shared a.file ∨
        ∃ j c' x, proc j = a.file.1 ∧ t.calls j = some (c', x) ∧
          InProgress t.shared a.file.1 a.file.2 c' x) := by
  have ht := holds_of_runs hr
  have hnone : t.shared.flock (proc i, fd) mode nonBlocking = none := by
    have hexec : (threads proc b nameMax).exec i (.flock fd mode nonBlocking) .succeed t.shared =
        t.shared.flock (proc i, fd) mode nonBlocking := rfl
    simp only [System.step, hcall, hexec] at hwait
    cases hf : t.shared.flock (proc i, fd) mode nonBlocking with
    | none => rfl
    | some y =>
      obtain ⟨w', r⟩ := y
      rw [hf] at hwait
      cases r with
      | none => cases hwait
      | some r => cases hwait
  obtain ⟨file, m, a, ho, hm, hnb, ha, hne, hinode, hmode⟩ := flock_waits hnone
  have hopen : t.shared.opened a.file ≠ none := ht.opened ha
  exact ⟨file, m, a, ho, hm, hnb, ha, hne, hinode, hmode, ht.owner hopen⟩

/-- A process that reads waits for one that writes. -/
theorem waits_for_live_writer : ∃ as t f, RunsGiving (System.idle (World.start Bool Bool)) as t ∧
    t.calls true = some (.rdlock 8 skyInfinite, .req (.flock 3 (some .shared) false) f) ∧
    t.shared.handed (false, 8) ≠ none ∧
    ∃ file m a, t.shared.opened (true, 3) = some file ∧ some LockMode.shared = some m ∧
      false = false ∧
      a ∈ t.shared.locks ∧ a.file ≠ (true, 3) ∧ a.inode = file.inode ∧
      (a.mode = .exclusive ∨ m = LockMode.exclusive) ∧
      (LiveFile t.shared a.file ∨
        ∃ j c' x, j = a.file.1 ∧ t.calls j = some (c', x) ∧
          InProgress t.shared a.file.1 a.file.2 c' x) := by
  obtain ⟨t1, hcreate, t2, hopen, t3, hlock, t4, hstart, ⟨q, hq⟩, t5, hload, f, hcall, hh,
      hwait⟩ :
      ∃ t1, twoProcesses.run (System.idle (World.start Bool Bool)) (createA false) = some t1 ∧
      ∃ t2, twoProcesses.run t1 (openA true) = some t2 ∧
      ∃ t3, twoProcesses.run t2 (wrlockA false) = some t3 ∧
      ∃ t4, twoProcesses.step t3 (.start true (.rdlock 8 skyInfinite)) = some t4 ∧
      (∃ q, t4.calls true = some (.rdlock 8 skyInfinite, q)) ∧
      ∃ t5, twoProcesses.run t4 ([.succeed, .succeed].map (Act.run true)) = some t5 ∧
      ∃ f, t5.calls true = some (.rdlock 8 skyInfinite, .req (.flock 3 (some .shared) false) f) ∧
        t5.shared.handed (false, 8) ≠ none ∧ twoProcesses.step t5 (.run true .succeed) = none :=
    ⟨_, rfl, _, rfl, _, rfl, _, rfl, ⟨_, rfl⟩, _, rfl, _, rfl, Option.some_ne_none _, rfl⟩
  have hcreate := runs_giving (by intro p hc; cases hc) hcreate
  have hopen := runs_giving (by intro p hc; cases hc) hopen
  have hlock := runs_giving (by intro p hc; cases hc) hlock
  have hgives : Gives (fun i => i) true (.rdlock 8 skyInfinite) t3.shared := by
    intro p hc
    cases hc
  have hrest : RunsGiving t3 _ t5 :=
    .start hgives hstart (System.runs_of_call (fun _ _ => trivial) _ t4 t5 q hq hload)
  have hruns := hcreate.append (hopen.append (hlock.append hrest))
  exact ⟨_, t5, f, hruns, hcall, hh, waits_for_live hruns hcall hwait⟩

end Sky.Rwlock.Ledger
