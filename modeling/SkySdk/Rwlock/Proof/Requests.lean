import SkySdk.Rwlock.Proof.Owned

/-!
# What each request keeps

One lemma for each thing a request does to the blocks, the descriptors or the locks, and from them
`Owned.reply` and `Owned.wait`: a request that a stage may make keeps what is owned.
-/

set_option autoImplicit false

namespace Sky.Rwlock

open Base

variable {ι κ : Type} {proc : ι → κ} {b : Build} {nameMax : Nat} {w w' : World ι κ} {i j : ι}
  {p q : Addr} {h h' : κ × Addr} {d : SkyHandleRwlock} {fd : Nat} {mode : LockMode} {g : Stage}
  {gs : ι → Stage} {own : Owners ι κ} {x : Choice}

def Inv (proc : ι → κ) (w : World ι κ) (gs : ι → Stage) : Prop := ∃ own, Owned proc own w gs

/-! ## Requests -/

section
variable [DecidableEq κ]

/-- The other blocks are kept when one changes hands. -/
theorem kept_setBlock (hne : h' ≠ h) (v : Option Block) (u : Option ι) :
    Kept proc w (w.setBlock h v) own { own with call := Function.update own.call h u } h' :=
  { Kept.refl proc w own h' with
    call := Function.update_of_ne hne _ _
    blocks := fun _ hd => (Function.update_of_ne hne _ _).trans hd }

/-- Blocks are kept when one for a name changes. -/
theorem kept_setName (hname : ∀ d, w.blocks h ≠ some (.lock d)) (v : Option Block)
    (h' : κ × Addr) : Kept proc w (w.setBlock h v) own own h' := by
  refine { Kept.refl proc w own h' with blocks := ?_ }
  intro d hd
  have hne : h' ≠ h := by
    intro he
    exact hname d (he ▸ hd)
  exact (Function.update_of_ne hne _ _).trans hd

variable [DecidableEq ι]

theorem Owned.allocate (ho : Owned proc own w gs) {v : Option Block}
    (hfree : w.blocks (proc i, p) = none) (hv : ∃ d, v = some (.lock d)) :
    Inv proc (w.setBlock (proc i, p) v) (Function.update gs i (.block p)) := by
  obtain ⟨d, rfl⟩ := hv
  refine ⟨{ own with call := Function.update own.call (proc i, p) (some i) }, ?_⟩
  refine ho.onBlock (.inr ?_) (fun h' hne => kept_setBlock hne _ _) rfl rfl ho.compatible ?_
  · intro d hd
    rw [hfree] at hd
    cases hd
  · exact ⟨Function.update_self _ _ _, d, Function.update_self _ _ _⟩

theorem Owned.setName (ho : Owned proc own w gs)
    (hname : ∀ d, w.blocks (proc i, p) ≠ some (.lock d)) (v : Option Block) :
    Owned proc own (w.setBlock (proc i, p) v) (Function.update gs i (gs i)) := by
  have hkept : ∀ h, Kept proc w (w.setBlock (proc i, p) v) own own h := kept_setName hname v
  refine ho.kernel hkept rfl ho.compatible ?_
  exact (ho.known i).kept fun q _ => hkept _

omit [DecidableEq κ] in
theorem Owned.setFile (ho : Owned proc own w gs) (path : List UInt8) (inode : Option Nat) :
    Owned proc own (w.setFile path inode) (Function.update gs i (gs i)) := by
  have hkept : ∀ h, Kept proc w (w.setFile path inode) own own h :=
    fun h => { Kept.refl proc w own h with }
  exact ho.kernel hkept rfl ho.compatible ((ho.known i).kept fun q _ => hkept _)

theorem Owned.setBlock (ho : Owned proc own w gs) (hp : own.call (proc i, p) = some i)
    (v : Option Block) (hg : Known proc (w.setBlock (proc i, p) v) own i g) :
    Owned proc own (w.setBlock (proc i, p) v) (Function.update gs i g) := by
  have hown : { own with call := Function.update own.call (proc i, p) (some i) } = own := by
    rw [← hp, Function.update_eq_self]
  refine ho.onBlock (.inl hp) ?_ rfl rfl ho.compatible hg
  intro h' hne
  have hkept : Kept proc w (w.setBlock (proc i, p) v) own
      { own with call := Function.update own.call (proc i, p) (some i) } h' :=
    kept_setBlock hne v (some i)
  rwa [hown] at hkept

theorem Owned.openAt (ho : Owned proc own w gs) (hg : gs i = .block p) {path : List UInt8}
    {inode : Nat} (hfree : w.opened (proc i, fd) = none)
    (hopen : w'.opened = Function.update w.opened (proc i, fd) (some ⟨path, inode⟩))
    (hlocks : w'.locks = w.locks) (hblocks : w'.blocks = w.blocks) (hhanded : w'.handed = w.handed)
    (huser : w'.user = w.user) (hholds : w'.holds = w.holds) :
    Inv proc w' (Function.update gs i (.owns p fd path)) := by
  have hk := ho.known i
  rw [hg] at hk
  obtain ⟨hcall, d, hd⟩ := hk
  refine ⟨{ own with block := Function.update own.block (proc i, fd) (some (proc i, p)) }, ?_⟩
  refine ho.onBlock (.inl hcall) ?_ hhanded hholds (hlocks ▸ ho.compatible) ?_
  · intro h' hne
    refine ⟨rfl, ?_, ?_, congrFun hhanded h', congrFun huser h', fun j q _ => by rw [hholds]⟩
    · intro d' hd'
      rw [hblocks]
      exact hd'
    · intro fd' file hmine hfile
      have hne' : (h'.1, fd') ≠ (proc i, fd) := by
        intro he
        rw [he, hfree] at hfile
        cases hfile
      refine ⟨(Function.update_of_ne hne' _ _).trans hmine, ?_, ?_⟩
      · rw [hopen, Function.update_of_ne hne', hfile]
      · intro a ha _
        rw [hlocks]
        exact ha
  · refine ⟨hcall, ⟨d, by rw [hblocks]; exact hd⟩, Function.update_self _ _ _, inode, ?_⟩
    rw [hopen, Function.update_self]

theorem Owned.openFile (ho : Owned proc own w gs) (hg : gs i = .block p) {path : List UInt8}
    {create : Bool} (hfree : w.opened (proc i, fd) = none)
    (hv : w.openFile (proc i, fd) path create = some w') :
    Inv proc w' (Function.update gs i (.owns p fd path)) := by
  cases create with
  | true =>
    cases hn : w.files path with
    | none =>
      simp only [World.openFile, hn] at hv
      cases hv
      exact ho.openAt hg hfree rfl rfl rfl rfl rfl rfl
    | some inode =>
      simp only [World.openFile, hn] at hv
      cases hv
  | false =>
    cases hn : w.files path with
    | none =>
      simp only [World.openFile, hn] at hv
      cases hv
    | some inode =>
      simp only [World.openFile, hn] at hv
      cases hv
      exact ho.openAt hg hfree rfl rfl rfl rfl rfl rfl

theorem Owned.closeAt (ho : Owned proc own w gs) {path : List UInt8}
    (hg : gs i = .owns p fd path) :
    Owned proc own (w.closeAt (proc i, fd)) (Function.update gs i (.block p)) := by
  have hk := ho.known i
  rw [hg] at hk
  obtain ⟨hcall, hd, ht⟩ := hk
  refine ho.onBlock (.inl hcall) ?_ rfl rfl ho.compatible.release ⟨hcall, hd⟩
  intro h' hne
  refine { Kept.refl proc w own h' with files := ?_ }
  intro fd' file hmine hfile
  have hne' : (h'.1, fd') ≠ (proc i, fd) := by
    intro he
    rw [he, ht.mine] at hmine
    exact hne (Option.some.inj hmine).symm
  refine ⟨hmine, (Function.update_of_ne hne' _ _).trans hfile, ?_⟩
  intro a ha hfile
  exact FileLock.mem_release.2 ⟨ha, hfile ▸ hne'⟩

theorem Owned.release (ho : Owned proc own w gs) (hg : gs i = .loaded p d)
    (hfd : d.fdRwlock = some fd) :
    Owned proc own (w.setLocks (FileLock.release w.locks (proc i, fd)))
      (Function.update gs i (.loaded p d)) := by
  have hk := ho.known i
  rw [hg] at hk
  obtain ⟨hu, hd⟩ := hk
  refine ho.onLock hu hd hfd ?_ ho.compatible.release ⟨⟨hu.handed, hu.user, hu.holds⟩, hd⟩
  intro a ha hne
  exact FileLock.mem_release.2 ⟨ha, hne⟩

theorem Owned.flock (ho : Owned proc own w gs) {m : Option LockMode} {nonBlocking : Bool}
    {rc : Int} (hg : gs i = .loaded p d) (hfd : d.fdRwlock = some fd)
    (he : w.flock (proc i, fd) m nonBlocking = some (w', some rc)) :
    ∃ g, next (gs i) (.flock fd m nonBlocking) rc g ∧
      Owned proc own w' (Function.update gs i g) := by
  have hstay : Owned proc own w (Function.update gs i (gs i)) := ho.learn (ho.known i)
  have hk := ho.known i
  rw [hg] at hk
  obtain ⟨hu, hd⟩ := hk
  obtain ⟨path, hmine, inode, hopen⟩ := ho.titled hu hd hfd
  cases m with
  | none =>
    simp only [World.flock, hopen] at he
    cases he
    exact ⟨.loaded p d, hg.symm, ho.release hg hfd⟩
  | some mode =>
    by_cases hfree : FileLock.Free w.locks (proc i, fd) inode mode
    · simp only [World.flock, hopen, if_pos hfree] at he
      cases he
      refine ⟨.locked p d mode, .inr ⟨rfl, p, d, hg, rfl⟩, ?_⟩
      refine ho.onLock hu hd hfd ?_ (ho.compatible.grant hfree) ?_
      · intro a ha hne
        exact FileLock.mem_grant.2 (.inr ⟨ha, hne⟩)
      · refine ⟨⟨hu.handed, hu.user, hu.holds⟩, hd, ?_⟩
        intro fd' hfd'
        rw [hfd] at hfd'
        cases hfd'
        exact ⟨hmine, _, hopen, FileLock.mem_grant.2 (.inl rfl)⟩
    · cases nonBlocking with
      | true =>
        simp only [World.flock, hopen, if_neg hfree, if_true] at he
        cases he
        exact ⟨gs i, .inl ⟨show (-1 : Int) ≠ 0 by decide, rfl⟩, hstay⟩
      | false =>
        simp only [World.flock, hopen, if_neg hfree] at he
        cases he

/-- The requests that only bring back a reply. -/
def Request.Quiet : Request → Prop
  | .pthreadInit _ | .pthreadDestroy _ | .pthreadLock _ _ _ | .pthreadUnlock _ => True
  | .systickGet | .systickSleep _ | .rounds | .spin | .validate _ => True
  | _ => False

omit [DecidableEq ι] in
theorem exec_quiet {k : κ} {o : Request} {r : Option o.Reply} (ho : o.Quiet)
    (he : exec b k o x w = some (w', r)) : w' = w ∧ r ≠ none := by
  cases o with
  | systickGet =>
    cases x with
    | tick t =>
      by_cases ht : t = 0
      · simp only [exec, if_pos ht] at he
        cases he
      · simp only [exec, if_neg ht] at he
        cases he
        exact ⟨rfl, Option.some_ne_none _⟩
    | _ => cases he
  | rounds =>
    cases x with
    | place n =>
      cases he
      exact ⟨rfl, Option.some_ne_none _⟩
    | _ => cases he
  | spin => cases he
  | validate p =>
    by_cases hc : b.assertAborts = true ∧ (p = 0 ∨ w.blocks (k, p) = none)
    · simp only [exec, if_pos hc] at he
      cases he
    · simp only [exec, if_neg hc] at he
      cases he
      exact ⟨rfl, Option.some_ne_none _⟩
  | pthreadInit p =>
    cases he
    exact ⟨rfl, Option.some_ne_none _⟩
  | pthreadDestroy p =>
    cases he
    exact ⟨rfl, Option.some_ne_none _⟩
  | pthreadLock p mode wait =>
    cases he
    exact ⟨rfl, Option.some_ne_none _⟩
  | pthreadUnlock p =>
    cases he
    exact ⟨rfl, Option.some_ne_none _⟩
  | systickSleep milliseconds =>
    cases he
    exact ⟨rfl, Option.some_ne_none _⟩
  | _ => exact ho.elim

omit [DecidableEq κ] [DecidableEq ι] in
theorem next_quiet {o : Request} {r : o.Reply} (ho : o.Quiet) : next g o r g := by
  cases o <;> first | exact ho.elim | rfl

/-! ## Replies -/

/-- A reply takes the call to a next stage, and what is owned stays so. -/
def Replied (proc : ι → κ) (gs : ι → Stage) (i : ι) (o : Request) (r : o.Reply) (w' : World ι κ) :
    Prop :=
  ∃ g, next (gs i) o r g ∧ Inv proc w' (Function.update gs i g)

omit [DecidableEq κ] in
theorem Owned.replied (ho : Owned proc own w gs) {o : Request} {r : o.Reply}
    (hn : next (gs i) o r (gs i)) : Replied proc gs i o r w :=
  ⟨gs i, hn, own, ho.learn (ho.known i)⟩

omit [DecidableEq ι] in
theorem allocate_cases {k : κ} {v : Block} {r : Option Addr}
    (he : allocate k v x w = some (w', r)) :
    r = some 0 ∧ w' = w ∨ ∃ p, r = some p ∧ p ≠ 0 ∧ w.blocks (k, p) = none ∧
      w' = w.setBlock (k, p) (some v) := by
  cases x with
  | place p =>
    by_cases hp : p ≠ 0 ∧ w.blocks (k, p) = none
    · simp only [allocate, if_pos hp] at he
      cases he
      exact .inr ⟨p, rfl, hp.1, hp.2, rfl⟩
    · simp only [allocate, if_neg hp] at he
      cases he
  | _ =>
    cases he
    exact .inl ⟨rfl, rfl⟩

theorem Owned.reply_alloc (ho : Owned proc own w gs) {r : Addr} (hidle : gs i = .idle)
    (he : exec b (proc i) .alloc x w = some (w', some r)) : Replied proc gs i .alloc r w' := by
  rcases allocate_cases he with ⟨hr, rfl⟩ | ⟨p, hr, hp, hfree, rfl⟩
  · obtain rfl := Option.some.inj hr
    exact ho.replied (hidle.trans (if_pos rfl).symm)
  · obtain rfl := Option.some.inj hr
    exact ⟨.block r, (if_neg hp).symm, ho.allocate hfree ⟨_, rfl⟩⟩

/-- What is freed is the block of the call. -/
theorem Owned.reply_free (ho : Owned proc own w gs) {r : Unit} (hm : may (gs i) (.free p))
    (he : exec b (proc i) (.free p) x w = some (w', some r)) :
    Replied proc gs i (.free p) r w' := by
  have hk := ho.known i
  have hp : own.call (proc i, p) = some i := by
    cases hm with
    | inl hm =>
      rw [hm] at hk
      exact hk.1
    | inr hm =>
      rw [hm] at hk
      exact hk.1
  cases hb : w.blocks (proc i, p) with
  | none =>
    simp only [exec, hb] at he
    cases he
  | some v =>
    cases v with
    | name =>
      simp only [exec, hb] at he
      cases he
    | lock d =>
      simp only [exec, hb] at he
      cases he
      exact ⟨.idle, rfl, own, ho.setBlock hp none trivial⟩

theorem Owned.reply_allocName (ho : Owned proc own w gs) {size : Nat} {r : Addr}
    (he : exec b (proc i) (.allocName size) x w = some (w', some r)) :
    Replied proc gs i (.allocName size) r w' := by
  rcases allocate_cases he with ⟨-, rfl⟩ | ⟨p, -, -, hfree, rfl⟩
  · exact ho.replied rfl
  · exact ⟨gs i, rfl, own, ho.setName (by simp [hfree]) _⟩

theorem Owned.reply_freeName (ho : Owned proc own w gs) {r : Unit}
    (he : exec b (proc i) (.freeName p) x w = some (w', some r)) :
    Replied proc gs i (.freeName p) r w' := by
  by_cases hp : w.blocks (proc i, p) = some .name
  · simp only [exec, if_pos hp] at he
    cases he
    exact ⟨gs i, rfl, own, ho.setName (by simp [hp]) _⟩
  · simp only [exec, if_neg hp] at he
    cases he

/-- A struct is stored with the descriptor of its block, or with none. -/
theorem Owned.reply_store (ho : Owned proc own w gs) {r : Unit} (hm : may (gs i) (.store p d))
    (he : exec b (proc i) (.store p d) x w = some (w', some r)) :
    Replied proc gs i (.store p d) r w' := by
  have hk := ho.known i
  cases hb : w.blocks (proc i, p) with
  | none =>
    simp only [exec, hb] at he
    cases he
  | some v =>
    cases v with
    | name =>
      simp only [exec, hb] at he
      cases he
    | lock d0 =>
      simp only [exec, hb] at he
      cases he
      rcases hm with ⟨fd, path, hg, hfd⟩ | ⟨hg, hfd⟩
      · rw [hg] at hk
        obtain ⟨hcall, -, ht⟩ := hk
        refine ⟨.made p (some path), .inl ⟨fd, path, hg, rfl⟩, own, ho.setBlock hcall _ ?_⟩
        exact ⟨hcall, d, Function.update_self _ _ _, fd, hfd, ht.mine, ht.opened⟩
      · have hcall : own.call (proc i, p) = some i := by
          cases hg with
          | inl hg =>
            rw [hg] at hk
            exact hk.1
          | inr hg =>
            rw [hg] at hk
            exact hk.1
        refine ⟨.made p none, .inr ⟨hg, rfl⟩, own, ho.setBlock hcall _ ?_⟩
        exact ⟨hcall, d, Function.update_self _ _ _, hfd⟩

/-- The struct that is read is that of a handle in use, or of one that is being destroyed. -/
theorem Owned.reply_load (ho : Owned proc own w gs) {r : SkyHandleRwlock}
    (hm : may (gs i) (.load p)) (he : exec b (proc i) (.load p) x w = some (w', some r)) :
    Replied proc gs i (.load p) r w' := by
  have hk := ho.known i
  obtain ⟨hp, hm⟩ := hm
  cases hb : w.blocks (proc i, p) with
  | none =>
    simp only [exec, hb] at he
    cases he
  | some v =>
    cases v with
    | name =>
      simp only [exec, hb] at he
      cases he
    | lock d =>
      simp only [exec, hb] at he
      cases he
      cases hm with
      | inl hg =>
        rw [hg] at hk
        exact ⟨.loaded p r, .inl ⟨hg, rfl⟩, own, ho.learn ⟨hk hp, hb⟩⟩
      | inr hg =>
        rw [hg] at hk
        obtain ⟨hcall, d', path, hd', hf⟩ := hk hp
        rw [hb] at hd'
        cases hd'
        cases path with
        | none => exact ⟨.block p, .inr ⟨hg, .inl ⟨hf, rfl⟩⟩, own, ho.learn ⟨hcall, r, hb⟩⟩
        | some path =>
          obtain ⟨fd, hfd, ht⟩ := hf
          exact ⟨.owns p fd path, .inr ⟨hg, .inr ⟨fd, path, hfd, rfl⟩⟩, own,
            ho.learn ⟨hcall, ⟨r, hb⟩, ht⟩⟩

theorem Owned.reply_print (ho : Owned proc own w gs) {size : Nat}
    {before : List UInt8} {n : CStr} {r : Int × List UInt8}
    (he : exec b (proc i) (.print size before n) x w = some (w', some r)) :
    Replied proc gs i (.print size before n) r w' := by
  have hprint : ∀ left, some (w, some (skyStrPrintf size before n left)) = some (w', some r) →
      Replied proc gs i (.print size before n) r w' := by
    intro left he
    cases he
    exact ho.replied ⟨rfl, left, rfl⟩
  cases x with
  | text left => exact hprint left he
  | place p => exact hprint [] he
  | succeed => exact hprint [] he
  | fail => exact hprint [] he
  | tick t => exact hprint [] he
  | drop => exact hprint [] he

theorem Owned.reply_openFile (ho : Owned proc own w gs) {path : List UInt8} {create : Bool}
    {r : Option Nat} (hg : gs i = .block p)
    (he : exec b (proc i) (.openFile path create) x w = some (w', some r)) :
    Replied proc gs i (.openFile path create) r w' := by
  have hrefuse : some (w, some (none : Option Nat)) = some (w', some r) →
      Replied proc gs i (.openFile path create) r w' := by
    intro he
    cases he
    exact ho.replied rfl
  cases x with
  | place fd =>
    by_cases hfree : w.opened (proc i, fd) = none
    · simp only [exec, if_pos hfree] at he
      cases hv : w.openFile (proc i, fd) path create with
      | none =>
        rw [hv] at he
        exact hrefuse he
      | some v =>
        rw [hv] at he
        cases he
        exact ⟨.owns p fd path, ⟨p, hg, rfl⟩, ho.openFile hg hfree hv⟩
    · simp only [exec, if_neg hfree] at he
      cases he
  | succeed => exact hrefuse he
  | fail => exact hrefuse he
  | text left => exact hrefuse he
  | tick t => exact hrefuse he
  | drop => exact hrefuse he

theorem Owned.reply_remove (ho : Owned proc own w gs) {path : List UInt8} {r : Unit}
    (he : exec b (proc i) (.remove path) x w = some (w', some r)) :
    Replied proc gs i (.remove path) r w' := by
  by_cases hx : x = .fail
  · simp only [exec, if_pos hx] at he
    cases he
    exact ho.replied rfl
  · simp only [exec, if_neg hx] at he
    cases he
    exact ⟨gs i, rfl, own, ho.setFile path none⟩

theorem Owned.reply_flock (ho : Owned proc own w gs) {m : Option LockMode} {nonBlocking : Bool}
    {rc : Int} (hg : gs i = .loaded p d) (hfd : d.fdRwlock = some fd)
    (he : exec b (proc i) (.flock fd m nonBlocking) x w = some (w', some rc)) :
    Replied proc gs i (.flock fd m nonBlocking) rc w' := by
  have hflock : w.flock (proc i, fd) m nonBlocking = some (w', some rc) →
      Replied proc gs i (.flock fd m nonBlocking) rc w' := by
    intro he
    obtain ⟨g, hnext, ho'⟩ := ho.flock hg hfd he
    exact ⟨g, hnext, own, ho'⟩
  cases x with
  | fail =>
    cases he
    refine ho.replied ?_
    cases m with
    | none => rfl
    | some mode => exact .inl ⟨show (-1 : Int) ≠ 0 by decide, rfl⟩
  | drop =>
    cases m with
    | none => cases he
    | some mode => cases he
  | succeed => exact hflock he
  | place a => exact hflock he
  | text left => exact hflock he
  | tick t => exact hflock he

theorem Owned.reply_quiet (ho : Owned proc own w gs) {o : Request} {r : o.Reply} (hq : o.Quiet)
    (he : exec b (proc i) o x w = some (w', some r)) : Replied proc gs i o r w' := by
  obtain ⟨rfl, -⟩ := exec_quiet hq he
  exact ho.replied (next_quiet hq)

theorem Owned.reply (ho : Owned proc own w gs) {o : Request} {r : o.Reply} (hm : may (gs i) o)
    (he : exec b (proc i) o x w = some (w', some r)) : Replied proc gs i o r w' := by
  cases o with
  | alloc => exact ho.reply_alloc hm he
  | free p => exact ho.reply_free hm he
  | allocName size => exact ho.reply_allocName he
  | freeName p => exact ho.reply_freeName he
  | store p d => exact ho.reply_store hm he
  | load p => exact ho.reply_load hm he
  | print size before n => exact ho.reply_print he
  | openFile path create =>
    obtain ⟨p, hg⟩ := hm
    exact ho.reply_openFile hg he
  | close fd =>
    obtain ⟨p, path, hg⟩ := hm
    cases he
    exact ⟨.block p, ⟨p, path, hg, rfl⟩, own, ho.closeAt hg⟩
  | remove path => exact ho.reply_remove he
  | flock fd m nonBlocking =>
    obtain ⟨p, d, hg, hfd⟩ := hm
    exact ho.reply_flock hg hfd he
  | pthreadInit | pthreadDestroy | pthreadLock | pthreadUnlock => exact ho.reply_quiet trivial he
  | systickGet | systickSleep | rounds | spin | validate => exact ho.reply_quiet trivial he

omit [DecidableEq ι] in
theorem allocate_replies {k : κ} {v : Block} {r : Option Addr}
    (he : allocate k v x w = some (w', r)) : r ≠ none := by
  rcases allocate_cases he with ⟨rfl, -⟩ | ⟨p, rfl, -⟩
  · exact Option.some_ne_none 0
  · exact Option.some_ne_none p

omit [DecidableEq ι] in
/-- Only `flock` leaves a request unanswered, when it takes the first step of a conversion. -/
theorem exec_waits {k : κ} {o : Request} (he : exec b k o x w = some (w', none)) :
    ∃ fd mode nonBlocking, o = .flock fd mode nonBlocking ∧
      w' = w.setLocks (FileLock.release w.locks (k, fd)) := by
  cases o with
  | flock fd mode nonBlocking =>
    refine ⟨fd, mode, nonBlocking, rfl, ?_⟩
    have hflock : w.flock (k, fd) mode nonBlocking ≠ some (w', none) := by
      intro he
      unfold World.flock at he
      split at he
      · cases he
      · cases he
      · split at he
        · cases he
        · split at he
          · cases he
          · cases he
    cases x with
    | fail => cases he
    | drop =>
      by_cases hm : mode = none
      · simp only [exec, if_pos hm] at he
        cases he
      · simp only [exec, if_neg hm] at he
        cases he
        rfl
    | succeed => exact absurd he hflock
    | place a => exact absurd he hflock
    | text left => exact absurd he hflock
    | tick t => exact absurd he hflock
  | alloc => exact absurd rfl (allocate_replies he)
  | allocName size => exact absurd rfl (allocate_replies he)
  | free p =>
    simp only [exec] at he
    split at he <;> cases he
  | freeName p =>
    simp only [exec] at he
    split at he <;> cases he
  | store p d =>
    simp only [exec] at he
    split at he <;> cases he
  | load p =>
    simp only [exec] at he
    split at he <;> cases he
  | print size before name =>
    cases x <;> cases he
  | openFile path create =>
    cases x with
    | place fd =>
      simp only [exec] at he
      split at he
      · split at he <;> cases he
      · cases he
    | _ => cases he
  | close fd => cases he
  | remove path =>
    simp only [exec] at he
    split at he <;> cases he
  | _ => exact absurd rfl (exec_quiet (by trivial) he).2

/-- The first step of a conversion drops the lock of a handle in use, which nobody holds. -/
theorem Owned.wait (ho : Owned proc own w gs) {o : Request} (hm : may (gs i) o)
    (he : exec b (proc i) o x w = some (w', none)) : Owned proc own w' gs := by
  obtain ⟨fd, mode, nonBlocking, rfl, rfl⟩ := exec_waits he
  obtain ⟨p, d, hg, hfd⟩ := hm
  have hrel := ho.release hg hfd
  rwa [← hg, Function.update_eq_self] at hrel

end

end Sky.Rwlock
