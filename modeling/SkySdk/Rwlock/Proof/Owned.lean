import SkySdk.Rwlock.Proof.Stages
import SkySdk.Rwlock.World

/-!
# Whose block and whose descriptor it is

`Owned` says what the calls and the callers own, given the `Owners`: a block that is not handed out
belongs to the call that fills it in or destroys it, and a descriptor to the block whose struct it
is in. A handle in use is the user's own. So a step of one thread changes nothing that another knows
(`Owned.step`).
-/

set_option autoImplicit false

namespace Sky.Rwlock

open Base

variable {ι κ : Type} {proc : ι → κ} {w w' : World ι κ} {i j : ι} {p q : Addr} {h : κ × Addr}
  {d : SkyHandleRwlock} {fd : Nat} {mode : LockMode} {g : Stage} {gs : ι → Stage}

structure Owners (ι κ : Type) where
  call : κ × Addr → Option ι
  block : κ × Nat → Option (κ × Addr)

variable {own own' : Owners ι κ}

/-! ## What the stages own -/

/-- The descriptor is the block's, and was opened by the path. -/
structure Title (w : World ι κ) (own : Owners ι κ) (h : κ × Addr) (fd : Nat) (path : List UInt8) :
    Prop where
  mine : own.block (h.1, fd) = some h
  opened : ∃ inode, w.opened (h.1, fd) = some ⟨path, inode⟩

/-- The struct of a block, with the descriptor opened by the path or without one. -/
def Filed (w : World ι κ) (own : Owners ι κ) (h : κ × Addr) (d : SkyHandleRwlock) :
    Option (List UInt8) → Prop
  | none => d.fdRwlock = none
  | some path => ∃ fd, d.fdRwlock = some fd ∧ Title w own h fd path

/-- The descriptor is the block's, and has the lock. -/
structure Locked (w : World ι κ) (own : Owners ι κ) (h : κ × Addr) (fd : Nat) (mode : LockMode) :
    Prop where
  mine : own.block (h.1, fd) = some h
  lock : ∃ file, w.opened (h.1, fd) = some file ∧ ⟨(h.1, fd), file.inode, mode⟩ ∈ w.locks

/-- If the struct of a block has a descriptor, that has the lock. -/
def Holding (w : World ι κ) (own : Owners ι κ) (h : κ × Addr) (mode : LockMode) : Prop :=
  ∃ d, w.blocks h = some (.lock d) ∧ ∀ fd, d.fdRwlock = some fd → Locked w own h fd mode

/-- Thread `i` of process `k` is in a call on the handle. -/
structure InUse (w : World ι κ) (k : κ) (i : ι) (p : Addr) : Prop where
  handed : w.handed (k, p) ≠ none
  user : w.user (k, p) = some i
  holds : w.holds i p = none

def Known (proc : ι → κ) (w : World ι κ) (own : Owners ι κ) (i : ι) : Stage → Prop
  | .idle => True
  | .block p => own.call (proc i, p) = some i ∧ ∃ d, w.blocks (proc i, p) = some (.lock d)
  | .owns p fd path => own.call (proc i, p) = some i ∧
      (∃ d, w.blocks (proc i, p) = some (.lock d)) ∧ Title w own (proc i, p) fd path
  | .made p path => own.call (proc i, p) = some i ∧
      ∃ d, w.blocks (proc i, p) = some (.lock d) ∧ Filed w own (proc i, p) d path
  | .taken p => p ≠ 0 → own.call (proc i, p) = some i ∧
      ∃ d path, w.blocks (proc i, p) = some (.lock d) ∧ Filed w own (proc i, p) d path
  | .using p => p ≠ 0 → InUse w (proc i) i p
  | .loaded p d => InUse w (proc i) i p ∧ w.blocks (proc i, p) = some (.lock d)
  | .locked p d mode => InUse w (proc i) i p ∧ w.blocks (proc i, p) = some (.lock d) ∧
      ∀ fd, d.fdRwlock = some fd → Locked w own (proc i, p) fd mode

/-- What the calls and the callers own. -/
structure Owned (proc : ι → κ) (own : Owners ι κ) (w : World ι κ) (gs : ι → Stage) : Prop where
  known : ∀ i, Known proc w own i (gs i)
  live : ∀ h path, w.handed h = some path →
    own.call h = none ∧ ∃ d, w.blocks h = some (.lock d) ∧ Filed w own h d path
  held : ∀ i p m, w.holds i p = some m → w.handed (proc i, p) ≠ none ∧
    w.user (proc i, p) = some i ∧ Holding w own (proc i, p) m
  compatible : FileLock.Compatible w.locks

/-- The stage is one of a call on the block. -/
def Stage.On (g : Stage) (p : Addr) : Prop :=
  match g with
  | .idle => False
  | .block q | .owns q _ _ | .made q _ | .loaded q _ | .locked q _ _ => q = p
  | .taken q | .using q => q = p ∧ p ≠ 0

theorem Owned.handed_live (ho : Owned proc own w gs) (hh : w.handed h ≠ none) :
    own.call h = none ∧ ∃ d, w.blocks h = some (.lock d) := by
  obtain ⟨path, hpath⟩ := Option.ne_none_iff_exists'.1 hh
  obtain ⟨hcall, d, hd, -⟩ := ho.live h path hpath
  exact ⟨hcall, d, hd⟩

/-- The block of a call is its own, or that of a handle it uses. -/
theorem Owned.on (ho : Owned proc own w gs) (hon : (gs j).On q) :
    (∃ d, w.blocks (proc j, q) = some (.lock d)) ∧ (own.call (proc j, q) = some j ∨
      w.handed (proc j, q) ≠ none ∧ w.user (proc j, q) = some j) := by
  have hk := ho.known j
  have huse : InUse w (proc j) j q → (∃ d, w.blocks (proc j, q) = some (.lock d)) ∧
      (own.call (proc j, q) = some j ∨
        w.handed (proc j, q) ≠ none ∧ w.user (proc j, q) = some j) := by
    intro hu
    exact ⟨(ho.handed_live hu.handed).2, .inr ⟨hu.handed, hu.user⟩⟩
  cases hg : gs j with
  | idle =>
    rw [hg] at hon
    exact hon.elim
  | block p =>
    rw [hg] at hk hon
    cases hon
    exact ⟨hk.2, .inl hk.1⟩
  | owns p fd path =>
    rw [hg] at hk hon
    cases hon
    exact ⟨hk.2.1, .inl hk.1⟩
  | made p path =>
    rw [hg] at hk hon
    cases hon
    obtain ⟨hcall, d, hd, -⟩ := hk
    exact ⟨⟨d, hd⟩, .inl hcall⟩
  | taken p =>
    rw [hg] at hk hon
    obtain ⟨rfl, hp⟩ := hon
    obtain ⟨hcall, d, path, hd, -⟩ := hk hp
    exact ⟨⟨d, hd⟩, .inl hcall⟩
  | «using» p =>
    rw [hg] at hk hon
    obtain ⟨rfl, hp⟩ := hon
    exact huse (hk hp)
  | loaded p d =>
    rw [hg] at hk hon
    cases hon
    exact huse hk.1
  | locked p d mode =>
    rw [hg] at hk hon
    cases hon
    exact huse hk.1

/-! ## What a step keeps -/

/-- Nothing of a block and its handle has changed. -/
structure Kept (proc : ι → κ) (w w' : World ι κ) (own own' : Owners ι κ) (h : κ × Addr) : Prop where
  call : own'.call h = own.call h
  blocks : ∀ d, w.blocks h = some (.lock d) → w'.blocks h = some (.lock d)
  files : ∀ fd file, own.block (h.1, fd) = some h → w.opened (h.1, fd) = some file →
    own'.block (h.1, fd) = some h ∧ w'.opened (h.1, fd) = some file ∧
      ∀ a ∈ w.locks, a.file = (h.1, fd) → a ∈ w'.locks
  handed : w'.handed h = w.handed h
  user : w'.user h = w.user h
  holds : ∀ i p, h = (proc i, p) → w'.holds i p = w.holds i p

theorem Kept.refl (proc : ι → κ) (w : World ι κ) (own : Owners ι κ) (h : κ × Addr) :
    Kept proc w w own own h where
  call := rfl
  blocks _ hd := hd
  files _ _ hmine hopen := ⟨hmine, hopen, fun _ ha _ => ha⟩
  handed := rfl
  user := rfl
  holds _ _ _ := rfl

theorem Kept.trans {v : World ι κ} {own₁ own₂ : Owners ι κ} (hv : Kept proc w v own own₁ h)
    (hw : Kept proc v w' own₁ own₂ h) : Kept proc w w' own own₂ h where
  call := hw.call.trans hv.call
  blocks d hd := hw.blocks d (hv.blocks d hd)
  files fd file hmine hopen := by
    obtain ⟨hmine', hopen', hlocks⟩ := hv.files fd file hmine hopen
    obtain ⟨hmine'', hopen'', hlocks'⟩ := hw.files fd file hmine' hopen'
    exact ⟨hmine'', hopen'', fun a ha hfile => hlocks' a (hlocks a ha hfile) hfile⟩
  handed := hw.handed.trans hv.handed
  user := hw.user.trans hv.user
  holds i p hh := (hw.holds i p hh).trans (hv.holds i p hh)

section
variable {path : List UInt8}

theorem Title.kept (ht : Title w own h fd path) (hk : Kept proc w w' own own' h) :
    Title w' own' h fd path := by
  obtain ⟨inode, hopen⟩ := ht.opened
  obtain ⟨hmine, hopen', -⟩ := hk.files fd _ ht.mine hopen
  exact ⟨hmine, inode, hopen'⟩

theorem Filed.kept {path : Option (List UInt8)} (hf : Filed w own h d path)
    (hk : Kept proc w w' own own' h) : Filed w' own' h d path := by
  cases path with
  | none => exact hf
  | some path =>
    obtain ⟨fd, hfd, ht⟩ := hf
    exact ⟨fd, hfd, ht.kept hk⟩

/-- Descriptors and their blocks are all that matters. -/
theorem Filed.same {path : Option (List UInt8)} (hf : Filed w own h d path)
    (ho : w'.opened = w.opened) (hb : own'.block = own.block) : Filed w' own' h d path := by
  cases path with
  | none => exact hf
  | some path =>
    obtain ⟨fd, hfd, hmine, inode, hopen⟩ := hf
    exact ⟨fd, hfd, hb ▸ hmine, inode, ho ▸ hopen⟩

theorem Locked.kept (hl : Locked w own h fd mode) (hk : Kept proc w w' own own' h) :
    Locked w' own' h fd mode := by
  obtain ⟨file, hopen, hlock⟩ := hl.lock
  obtain ⟨hmine, hopen', hlocks⟩ := hk.files fd file hl.mine hopen
  exact ⟨hmine, file, hopen', hlocks _ hlock rfl⟩

theorem Holding.kept (hl : Holding w own h mode) (hk : Kept proc w w' own own' h) :
    Holding w' own' h mode := by
  obtain ⟨d, hd, hlocked⟩ := hl
  exact ⟨d, hk.blocks d hd, fun fd hfd => (hlocked fd hfd).kept hk⟩

theorem InUse.kept (hu : InUse w (proc i) i p) (hk : Kept proc w w' own own' (proc i, p)) :
    InUse w' (proc i) i p where
  handed := hk.handed ▸ hu.handed
  user := hk.user.trans hu.user
  holds := (hk.holds i p rfl).trans hu.holds

end

theorem Known.kept (hn : Known proc w own i g)
    (hk : ∀ p, g.On p → Kept proc w w' own own' (proc i, p)) : Known proc w' own' i g := by
  cases g with
  | idle => trivial
  | block p =>
    have hk := hk p rfl
    obtain ⟨hcall, d, hd⟩ := hn
    exact ⟨hk.call.trans hcall, d, hk.blocks d hd⟩
  | owns p fd path =>
    have hk := hk p rfl
    obtain ⟨hcall, ⟨d, hd⟩, ht⟩ := hn
    exact ⟨hk.call.trans hcall, ⟨d, hk.blocks d hd⟩, ht.kept hk⟩
  | made p path =>
    have hk := hk p rfl
    obtain ⟨hcall, d, hd, hf⟩ := hn
    exact ⟨hk.call.trans hcall, d, hk.blocks d hd, hf.kept hk⟩
  | taken p =>
    intro hp
    have hk := hk p ⟨rfl, hp⟩
    obtain ⟨hcall, d, path, hd, hf⟩ := hn hp
    exact ⟨hk.call.trans hcall, d, path, hk.blocks d hd, hf.kept hk⟩
  | «using» p =>
    intro hp
    exact (hn hp).kept (hk p ⟨rfl, hp⟩)
  | loaded p d =>
    have hk := hk p rfl
    exact ⟨hn.1.kept hk, hk.blocks d hn.2⟩
  | locked p d mode =>
    have hk := hk p rfl
    obtain ⟨hu, hd, hl⟩ := hn
    exact ⟨hu.kept hk, hk.blocks d hd, fun fd hfd => (hl fd hfd).kept hk⟩

/-- No other thread may be in a call on the block, or hold its lock. -/
def Mine (w : World ι κ) (own : Owners ι κ) (i : ι) (h : κ × Addr) : Prop :=
  own.call h = some i ∨ (∀ d, w.blocks h ≠ some (.lock d)) ∨
    w.handed h ≠ none ∧ (w.user h = none ∨ w.user h = some i)

theorem Owned.eq_of_mine (ho : Owned proc own w gs) (hm : Mine w own i h)
    (hb : ∃ d, w.blocks h = some (.lock d))
    (hj : own.call h = some j ∨ w.handed h ≠ none ∧ w.user h = some j) : j = i := by
  obtain ⟨d, hd⟩ := hb
  rcases hm with hcall | hnone | ⟨hh, hu⟩
  · rcases hj with hj | ⟨hh, -⟩
    · exact Option.some.inj (hj.symm.trans hcall)
    · rw [(ho.handed_live hh).1] at hcall
      cases hcall
  · exact absurd hd (hnone d)
  · rcases hj with hj | ⟨-, hj⟩
    · rw [(ho.handed_live hh).1] at hj
      cases hj
    · rcases hu with hu | hu
      · rw [hu] at hj
        cases hj
      · exact Option.some.inj (hj.symm.trans hu)

/-- A call that has got no lock is still in use of its handle. -/
theorem Owned.unlocked (ho : Owned proc own w gs) (hp : (gs i).Unlocked p) (hz : p ≠ 0) :
    InUse w (proc i) i p := by
  have hk := ho.known i
  rcases hp with hg | ⟨d, hg⟩
  · rw [hg] at hk
    exact hk hz
  · rw [hg] at hk
    exact hk.1

/-- The descriptor of a handle in use is the handle's. -/
theorem Owned.titled (ho : Owned proc own w gs) (hu : InUse w (proc i) i p)
    (hd : w.blocks (proc i, p) = some (.lock d)) (hfd : d.fdRwlock = some fd) :
    ∃ path, Title w own (proc i, p) fd path := by
  obtain ⟨path, hpath⟩ := Option.ne_none_iff_exists'.1 hu.handed
  obtain ⟨-, d', hd', hf⟩ := ho.live _ path hpath
  rw [hd] at hd'
  cases hd'
  cases path with
  | none =>
    rw [show d.fdRwlock = none from hf] at hfd
    cases hfd
  | some path =>
    obtain ⟨fd', hfd', ht⟩ := hf
    rw [hfd] at hfd'
    cases hfd'
    exact ⟨path, ht⟩

variable [DecidableEq ι]

/-- A step of thread `i` that changes only blocks and handles `M`, which are its own. -/
theorem Owned.step (ho : Owned proc own w gs) (M : κ × Addr → Prop)
    (hM : ∀ h, M h → Mine w own i h) (hkept : ∀ h, ¬ M h → Kept proc w w' own own' h)
    (hlive : ∀ h path, M h → w'.handed h = some path →
      own'.call h = none ∧ ∃ d, w'.blocks h = some (.lock d) ∧ Filed w' own' h d path)
    (hholds : ∀ j, j ≠ i → w'.holds j = w.holds j)
    (hheld : ∀ p m, M (proc i, p) → w'.holds i p = some m → w'.handed (proc i, p) ≠ none ∧
      w'.user (proc i, p) = some i ∧ Holding w' own' (proc i, p) m)
    (hc : FileLock.Compatible w'.locks) (hg : Known proc w' own' i g) :
    Owned proc own' w' (Function.update gs i g) := by
  refine ⟨?_, ?_, ?_, hc⟩
  · intro j
    by_cases hj : j = i
    · subst hj
      rw [Function.update_self]
      exact hg
    · rw [Function.update_of_ne hj]
      refine (ho.known j).kept ?_
      intro q hon
      obtain ⟨hb, hown⟩ := ho.on hon
      exact hkept _ fun hm => hj (ho.eq_of_mine (hM _ hm) hb hown)
  · intro h path hh
    by_cases hm : M h
    · exact hlive h path hm hh
    · have hk := hkept h hm
      obtain ⟨hcall, d, hd, hf⟩ := ho.live h path (hk.handed ▸ hh)
      exact ⟨hk.call.trans hcall, d, hk.blocks d hd, hf.kept hk⟩
  · intro j q m hh
    have hother : ¬ M (proc j, q) → w'.handed (proc j, q) ≠ none ∧
        w'.user (proc j, q) = some j ∧ Holding w' own' (proc j, q) m := by
      intro hm
      have hk := hkept _ hm
      obtain ⟨hhanded, huser, hl⟩ := ho.held j q m ((hk.holds j q rfl).symm.trans hh)
      exact ⟨hk.handed ▸ hhanded, hk.user.trans huser, hl.kept hk⟩
    by_cases hm : M (proc j, q)
    · by_cases hj : j = i
      · subst hj
        exact hheld q m hm hh
      · rw [hholds j hj] at hh
        obtain ⟨hhanded, huser, d, hd, -⟩ := ho.held j q m hh
        exact absurd (ho.eq_of_mine (hM _ hm) ⟨d, hd⟩ (.inr ⟨hhanded, huser⟩)) hj
    · exact hother hm

/-- A step that changes no block and no handle. -/
theorem Owned.kernel (ho : Owned proc own w gs) (hkept : ∀ h, Kept proc w w' own own h)
    (hholds : w'.holds = w.holds) (hc : FileLock.Compatible w'.locks)
    (hg : Known proc w' own i g) : Owned proc own w' (Function.update gs i g) :=
  ho.step (fun _ => False) (fun _ hm => hm.elim) (fun h _ => hkept h)
    (fun _ _ hm _ => hm.elim) (fun j _ => by rw [hholds]) (fun _ _ hm _ => hm.elim) hc hg

/-- A step that changes nothing but what the thread knows. -/
theorem Owned.learn (ho : Owned proc own w gs) (hg : Known proc w own i g) :
    Owned proc own w (Function.update gs i g) :=
  ho.kernel (Kept.refl proc w own) rfl ho.compatible hg

/-- A step on a block of the call's own. -/
theorem Owned.onBlock (ho : Owned proc own w gs)
    (hp : own.call h = some i ∨ ∀ d, w.blocks h ≠ some (.lock d))
    (hkept : ∀ h', h' ≠ h → Kept proc w w' own own' h') (hh : w'.handed = w.handed)
    (hholds : w'.holds = w.holds) (hc : FileLock.Compatible w'.locks)
    (hg : Known proc w' own' i g) : Owned proc own' w' (Function.update gs i g) := by
  have hnone : w.handed h = none := by
    by_contra hhanded
    obtain ⟨hcall, d, hd⟩ := ho.handed_live hhanded
    rcases hp with hp | hp
    · rw [hcall] at hp
      cases hp
    · exact hp d hd
  refine ho.step (fun h' => h' = h) ?_ hkept ?_ (fun j _ => by rw [hholds]) ?_ hc hg
  · intro h' hm
    subst hm
    exact hp.imp_right .inl
  · intro h' path hm hhanded
    rw [hm, hh, hnone] at hhanded
    cases hhanded
  · intro q m hm hheld
    rw [hholds] at hheld
    exact absurd (hm ▸ hnone) (ho.held i q m hheld).1

/-- A step that changes the lock of the descriptor of a handle in use. -/
theorem Owned.onLock (ho : Owned proc own w gs) (hu : InUse w (proc i) i p)
    (hd : w.blocks (proc i, p) = some (.lock d)) (hfd : d.fdRwlock = some fd)
    {locks : List (FileLock (κ × Nat) Nat)}
    (hkeep : ∀ a ∈ w.locks, a.file ≠ (proc i, fd) → a ∈ locks)
    (hc : FileLock.Compatible locks) (hg : Known proc (w.setLocks locks) own i g) :
    Owned proc own (w.setLocks locks) (Function.update gs i g) := by
  obtain ⟨path, ht⟩ := ho.titled hu hd hfd
  refine ho.step (fun h' => h' = (proc i, p)) ?_ ?_ ?_ (fun _ _ => rfl) ?_ hc hg
  · intro h' hm
    subst hm
    exact .inr (.inr ⟨hu.handed, .inr hu.user⟩)
  · intro h' hne
    refine { Kept.refl proc w own h' with files := ?_ }
    intro fd' file hmine hopen
    refine ⟨hmine, hopen, ?_⟩
    intro a ha hfile
    refine hkeep a ha ?_
    intro hsame
    rw [← hfile, hsame, ht.mine] at hmine
    exact hne (Option.some.inj hmine).symm
  · intro h' path' hm hh
    obtain ⟨hcall, d', hd', hf⟩ := ho.live h' path' hh
    exact ⟨hcall, d', hd', hf.same rfl rfl⟩
  · intro q m hm hh
    cases hm
    exact absurd (hh.symm.trans hu.holds) (by simp)

end Sky.Rwlock
