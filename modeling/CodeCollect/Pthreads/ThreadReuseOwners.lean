import CodeCollect.Pthreads.ThreadReuse

namespace CodeCollect.Pthreads

open CodeCollect.Library Program

namespace ThreadReuse

variable {Thread : Type} [DecidableEq Thread]

/-- What is known about the structure that a thread has in hand. -/
inductive Claim (memory : Memory Thread) (nodes : List Nat) (self : Thread) :
    Role → PthreadT → Prop
  | creates {chosen : Option Bool} {thread : PthreadT} : 2 ≤ thread.p → thread.p < memory.brk →
      thread.p ∉ nodes → memory.threadH thread.p = none → memory.state thread.p ≠ .Last →
      thread.x = memory.x thread.p →
      (∀ detached, chosen = some detached → memory.detachState thread.p = detached) →
      Claim memory nodes self (.creates chosen) thread
  | dies {thread : PthreadT} : memory.threadH thread.p = some self →
      memory.kernel self = .posix thread.p → thread.x = memory.x thread.p →
      memory.detachState thread.p = true → Claim memory nodes self .dies thread
  | checks {thread : PthreadT} {threadH : Thread} : memory.threadH thread.p = some threadH →
      thread.x = memory.x thread.p → memory.detachState thread.p = false →
      Claim memory nodes self .checks thread
  | reclaims {ended : Bool} {thread : PthreadT} {threadH : Thread} :
      memory.threadH thread.p = some threadH → threadH ∈ memory.last →
      threadH ∈ memory.released → thread.x = memory.x thread.p →
      memory.detachState thread.p = false →
      (ended = true → memory.kernel threadH = .ended) →
      Claim memory nodes self (.reclaims ended) thread

/-- A structure is in use by a thread. -/
structure Uses (memory : Memory Thread) (nodes : List Nat) (p : Nat) (threadH : Thread) :
    Prop where
  low : 2 ≤ p
  below : p < memory.brk
  absent : p ∉ nodes
  issued : (threadH, memory.ptHandle p) ∈ memory.issued
  kernel : memory.kernel threadH = .created p ∨ memory.kernel threadH = .posix p ∨
    memory.kernel threadH = .ended ∧ threadH ∈ memory.last ∧ memory.detachState p = false
  last : memory.state p = .Last ↔ threadH ∈ memory.last
  detached : memory.detachState p = true → threadH ∈ memory.released

/-- What the kernel knows about a thread fits to where it is. -/
inductive Stands (memory : Memory Thread) (place : Place) (self : Thread) : Kernel → Prop
  | unborn : (∀ thread, (self, thread) ∉ memory.issued) → self ∉ memory.last → late place = false →
      implicit place = false → Stands memory place self .unborn
  | win32 : (∀ thread, (self, thread) ∉ memory.issued) → self ∉ memory.last → late place = false →
      Stands memory place self .win32
  | created {p : Nat} : memory.threadH p = some self → self ∉ memory.last → late place = false →
      implicit place = false → Stands memory place self (.created p)
  | posix {p : Nat} : (late place = true ↔ self ∈ memory.last) → implicit place = false →
      (place ≠ .clearing → memory.threadH p = some self) →
      (place = .clearing → ∀ q, memory.threadH q ≠ some self) → Stands memory place self (.posix p)
  | ended : late place = false → implicit place = false → Stands memory place self .ended

/-- The identifiers that were handed out are different, and those of reclaimed structures are
stale. -/
structure Ledger (memory : Memory Thread) : Prop where
  threads : (memory.issued.map Prod.fst).Nodup
  identifiers : (memory.issued.map Prod.snd).Nodup
  current : ∀ threadH thread, (threadH, thread) ∈ memory.issued →
    2 ≤ thread.p ∧ thread.p < memory.brk ∧
      (thread.x = memory.x thread.p ∧ memory.threadH thread.p = some threadH ∨
        thread.x < memory.x thread.p ∧ threadH ∈ memory.pushed.filterMap Prod.snd)
  once : (memory.pushed.filterMap Prod.snd).Nodup
  justified : ∀ threadH ∈ memory.pushed.filterMap Prod.snd,
    threadH ∈ memory.last ∧ threadH ∈ memory.released ∧
      ∃ thread, (threadH, thread) ∈ memory.issued ∧ thread.x < memory.x thread.p
  freed : ∀ threadH ∈ memory.released, ∃ thread, (threadH, thread) ∈ memory.issued

structure Inv (nodes : List Nat) (memory : Memory Thread) (places : Thread → Place) : Prop where
  locked : ∀ thread, memory.reuseLock = some thread ↔ Locks (places thread)
  queue : memory.reuse.Holds PTW32_THREAD_REUSE_EMPTY nodes
  inside : ∀ p ∈ nodes, 2 ≤ p ∧ p < memory.brk ∧ memory.threadH p = none ∧ memory.state p ≠ .Last
  start : 2 ≤ memory.brk
  order : memory.pushed.map Prod.fst = memory.popped ++ nodes
  claims : ∀ self claimed thread, role (places self) = some (claimed, thread) →
    Claim memory nodes self claimed thread
  creator : ∀ one other first second thread also, role (places one) = some (.creates first, thread) →
    role (places other) = some (.creates second, also) → thread.p = also.p → one = other
  reclaimer : ∀ one other first second thread also,
    role (places one) = some (.reclaims first, thread) →
      role (places other) = some (.reclaims second, also) → thread.p = also.p → one = other
  unclaimed : ∀ one other ended thread also, role (places one) = some (.checks, thread) →
    role (places other) = some (.reclaims ended, also) → thread.p ≠ also.p
  used : ∀ p threadH, memory.threadH p = some threadH → Uses memory nodes p threadH
  stands : ∀ self, Stands memory (places self) self (memory.kernel self)
  ledger : Ledger memory
  released : ∀ threadH ∈ memory.released, ∀ p, memory.threadH p = some threadH →
    memory.detachState p = true ∨ ∃ self ended,
      role (places self) = some (.reclaims ended, memory.ptHandle p)

variable {memory next : Memory Thread} {nodes others : List Nat} {places : Thread → Place}
  {self : Thread} {place : Place}

omit [DecidableEq Thread] in
/-- A thread gets one identifier only. -/
theorem Ledger.unique (ledger : Ledger memory) {threadH : Thread} {one other : PthreadT}
    (first : (threadH, one) ∈ memory.issued) (second : (threadH, other) ∈ memory.issued) :
    one = other :=
  (Prod.mk.inj (List.inj_on_of_nodup_map ledger.threads first second rfl)).2

omit [DecidableEq Thread] in
/-- A claim looks at one structure only. -/
theorem Claim.congr {claimed : Role} {thread : PthreadT}
    (claim : Claim memory nodes self claimed thread) (brk : memory.brk ≤ next.brk)
    (absent : thread.p ∈ others → thread.p ∈ nodes)
    (threadH : next.threadH thread.p = memory.threadH thread.p)
    (state : memory.threadH thread.p = none → next.state thread.p = memory.state thread.p)
    (x : next.x thread.p = memory.x thread.p)
    (detachState : next.detachState thread.p = memory.detachState thread.p)
    (ended : ∀ other, memory.threadH thread.p = some other → memory.kernel other = .ended →
      next.kernel other = .ended)
    (own : claimed = .dies → next.kernel self = memory.kernel self)
    (last : ∀ other ∈ memory.last, other ∈ next.last)
    (released : ∀ other ∈ memory.released, other ∈ next.released) :
    Claim next others self claimed thread := by
  cases claim with
  | creates low below free nobody fresh counter chosen =>
      refine .creates low (below.trans_le brk) (fun present => free (absent present))
        (threadH.trans nobody) ?_ (counter.trans x.symm) ?_
      · rwa [state nobody]
      · rwa [detachState]
  | dies mine kernel counter detached =>
      exact .dies (threadH.trans mine) ((own rfl).trans kernel) (counter.trans x.symm)
        (detachState.trans detached)
  | checks uses counter joinable =>
      exact .checks (threadH.trans uses) (counter.trans x.symm) (detachState.trans joinable)
  | reclaims uses gone free counter joinable done =>
      exact .reclaims (threadH.trans uses) (last _ gone) (released _ free) (counter.trans x.symm)
        (detachState.trans joinable) fun known => ended _ uses (done known)

omit [DecidableEq Thread] in
theorem Uses.congr {p : Nat} {threadH : Thread} (uses : Uses memory nodes p threadH)
    (brk : memory.brk ≤ next.brk) (absent : p ∈ others → p ∈ nodes)
    (issued : ∀ entry ∈ memory.issued, entry ∈ next.issued) (x : next.x p = memory.x p)
    (kernel : next.kernel threadH = memory.kernel threadH)
    (detachState : memory.kernel threadH = .ended → next.detachState p = memory.detachState p)
    (state : next.state p = memory.state p) (last : threadH ∈ next.last ↔ threadH ∈ memory.last)
    (detached : next.detachState p = true →
      memory.detachState p = true ∨ threadH ∈ next.released)
    (released : threadH ∈ memory.released → threadH ∈ next.released) :
    Uses next others p threadH := by
  refine ⟨uses.low, uses.below.trans_le brk, fun present => uses.absent (absent present), ?_, ?_,
    ?_, fun free => (detached free).elim (fun before => released (uses.detached before)) id⟩
  · have entry := issued _ uses.issued
    rwa [Memory.ptHandle, ← x] at entry
  · rcases uses.kernel with created | posix | ⟨ended, gone, joinable⟩
    · exact .inl (kernel.trans created)
    · exact .inr (.inl (kernel.trans posix))
    · exact .inr (.inr ⟨kernel.trans ended, last.mpr gone, (detachState ended).trans joinable⟩)
  · rw [state, last]
    exact uses.last

omit [DecidableEq Thread] in
theorem Stands.congr {kernel : Kernel} (stands : Stands memory place self kernel)
    (issued : ∀ thread, (self, thread) ∈ next.issued → (self, thread) ∈ memory.issued)
    (last : self ∈ next.last ↔ self ∈ memory.last)
    (threadH : ∀ p, memory.threadH p = some self ↔ next.threadH p = some self) :
    Stands next place self kernel := by
  cases stands with
  | unborn fresh early elsewhere explicit =>
      exact .unborn (fun thread entry => fresh thread (issued thread entry)) (mt last.mp early)
        elsewhere explicit
  | win32 fresh early elsewhere =>
      exact .win32 (fun thread entry => fresh thread (issued thread entry)) (mt last.mp early)
        elsewhere
  | created uses early elsewhere explicit =>
      exact .created ((threadH _).mp uses) (mt last.mp early) elsewhere explicit
  | posix gone explicit uses clear =>
      exact .posix (gone.trans last.symm) explicit (fun inside => (threadH _).mp (uses inside))
        fun outside q mine => clear outside q ((threadH q).mpr mine)
  | ended elsewhere explicit => exact .ended elsewhere explicit

omit [DecidableEq Thread] in
/-- What one thread has in hand changes, and what the others have stays. -/
theorem role_update [DecidableEq Thread] {claimed : Role} {thread : PthreadT} {one : Thread}
    (found : role (Function.update places self place one) = some (claimed, thread)) :
    one = self ∧ role place = some (claimed, thread) ∨
      one ≠ self ∧ role (places one) = some (claimed, thread) := by
  by_cases here : one = self
  · subst here
    rw [Function.update_self] at found
    exact .inl ⟨rfl, found⟩
  · rw [Function.update_of_ne here] at found
    exact .inr ⟨here, found⟩

namespace Inv

/-- A move that changes only locks and what the thread has in hand. -/
theorem walk (inv : Inv nodes memory places) {reuseLock : Option Thread}
    {stateLock : Nat → Option Thread}
    (locked : ∀ thread, reuseLock = some thread ↔
      Locks (Function.update places self place thread))
    (claims : ∀ claimed thread, role place = some (claimed, thread) →
      Claim memory nodes self claimed thread)
    (creates : ∀ chosen thread, role place = some (.creates chosen, thread) →
      ∃ before, role (places self) = some (.creates before, thread))
    (reclaims : ∀ ended thread, role place = some (.reclaims ended, thread) →
      ∃ before, role (places self) = some (.reclaims before, thread))
    (keeps : ∀ ended thread, role (places self) = some (.reclaims ended, thread) →
      ∃ after, role place = some (.reclaims after, thread))
    (checks : ∀ thread, role place = some (.checks, thread) →
      ∀ other ended also, role (places other) = some (.reclaims ended, also) → thread.p ≠ also.p)
    (stands : Stands memory place self (memory.kernel self)) :
    Inv nodes { memory with reuseLock := reuseLock, stateLock := stateLock }
      (Function.update places self place) := by
  constructor
  · exact locked
  · exact inv.queue
  · exact inv.inside
  · exact inv.start
  · exact inv.order
  · intro one claimed thread found
    have claim : Claim memory nodes one claimed thread := by
      rcases role_update found with ⟨rfl, new⟩ | ⟨-, old⟩
      · exact claims claimed thread new
      · exact inv.claims one claimed thread old
    exact claim.congr le_rfl id rfl (fun _ => rfl) rfl rfl (fun _ _ => id) (fun _ => rfl)
      (fun _ => id) fun _ => id
  · intro one other first second thread also found too same
    rcases role_update found with ⟨rfl, new⟩ | ⟨-, old⟩
    · obtain ⟨before, had⟩ := creates first thread new
      rcases role_update too with ⟨rfl, -⟩ | ⟨-, old⟩
      · rfl
      · exact inv.creator one other before second thread also had old same
    · rcases role_update too with ⟨rfl, new⟩ | ⟨-, also'⟩
      · obtain ⟨before, had⟩ := creates second also new
        exact inv.creator one other first before thread also old had same
      · exact inv.creator one other first second thread also old also' same
  · intro one other first second thread also found too same
    rcases role_update found with ⟨rfl, new⟩ | ⟨-, old⟩
    · obtain ⟨before, had⟩ := reclaims first thread new
      rcases role_update too with ⟨rfl, -⟩ | ⟨-, old⟩
      · rfl
      · exact inv.reclaimer one other before second thread also had old same
    · rcases role_update too with ⟨rfl, new⟩ | ⟨-, also'⟩
      · obtain ⟨before, had⟩ := reclaims second also new
        exact inv.reclaimer one other first before thread also old had same
      · exact inv.reclaimer one other first second thread also old also' same
  · intro one other ended thread also found too
    rcases role_update found with ⟨rfl, new⟩ | ⟨-, old⟩
    · rcases role_update too with ⟨rfl, also'⟩ | ⟨-, old⟩
      · exact absurd (new.symm.trans also') nofun
      · exact checks thread new other ended also old
    · rcases role_update too with ⟨rfl, new⟩ | ⟨-, also'⟩
      · obtain ⟨before, had⟩ := reclaims ended also new
        exact inv.unclaimed one other before thread also old had
      · exact inv.unclaimed one other ended thread also old also'
  · intro p threadH uses
    exact (inv.used p threadH uses).congr le_rfl id (fun _ => id) rfl rfl (fun _ => rfl) rfl Iff.rfl
      .inl id
  · intro one
    by_cases here : one = self
    · subst here
      rw [Function.update_self]
      exact stands.congr (fun _ => id) Iff.rfl fun _ => Iff.rfl
    · rw [Function.update_of_ne here]
      exact (inv.stands one).congr (fun _ => id) Iff.rfl fun _ => Iff.rfl
  · obtain ⟨threads, identifiers, current, once, justified, freed⟩ := inv.ledger
    exact ⟨threads, identifiers, current, once, justified, freed⟩
  · intro threadH free p uses
    rcases inv.released threadH free p uses with detached | ⟨one, ended, had⟩
    · exact .inl detached
    · right
      by_cases here : one = self
      · subst here
        obtain ⟨after, has⟩ := keeps ended _ had
        refine ⟨one, after, ?_⟩
        rw [Function.update_self]
        exact has
      · refine ⟨one, ended, ?_⟩
        rw [Function.update_of_ne here]
        exact had

/-- A move that changes what the kernel knows about a thread and how far its structure has come. -/
theorem turn (inv : Inv nodes memory places)
    (same : next.reuseLock = memory.reuseLock ∧ next.reuse = memory.reuse ∧ next.brk = memory.brk ∧
      next.x = memory.x ∧ next.detachState = memory.detachState ∧ next.threadH = memory.threadH ∧
        next.issued = memory.issued ∧ next.released = memory.released ∧
          next.pushed = memory.pushed ∧ next.popped = memory.popped)
    (kernel : ∀ other, other ≠ self → next.kernel other = memory.kernel other)
    (state : ∀ p, memory.threadH p ≠ some self → next.state p = memory.state p)
    (last : ∀ other, other ≠ self → (other ∈ next.last ↔ other ∈ memory.last))
    (kept : self ∈ memory.last → self ∈ next.last)
    (running : memory.kernel self ≠ .ended)
    (idle : role (places self) = none) (still : role place = none)
    (locked : holds place = holds (places self))
    (uses : ∀ p, memory.threadH p = some self → Uses next nodes p self)
    (stands : Stands next place self (next.kernel self)) :
    Inv nodes next (Function.update places self place) := by
  obtain ⟨reuseLock, reuse, brk, x, detachState, threadH, issued, released, pushed, popped⟩ := same
  have roles : ∀ one claimed thread,
      role (Function.update places self place one) = some (claimed, thread) →
        one ≠ self ∧ role (places one) = some (claimed, thread) := by
    intro one claimed thread found
    rcases role_update found with ⟨rfl, new⟩ | old
    · exact absurd (still.symm.trans new) nofun
    · exact old
  have lasting : ∀ other ∈ memory.last, other ∈ next.last := by
    intro other gone
    by_cases here : other = self
    · subst here
      exact kept gone
    · exact (last other here).mpr gone
  constructor
  · rw [reuseLock]
    exact owner_keep inv.locked (locks_congr locked)
  · rw [reuse]
    exact inv.queue
  · intro p present
    obtain ⟨low, below, nobody, fresh⟩ := inv.inside p present
    rw [brk, threadH, state p (by rw [nobody]; exact nofun)]
    exact ⟨low, below, nobody, fresh⟩
  · rw [brk]
    exact inv.start
  · rw [pushed, popped]
    exact inv.order
  · intro one claimed thread found
    obtain ⟨here, old⟩ := roles one claimed thread found
    refine (inv.claims one claimed thread old).congr brk.ge id (congrFun threadH _) ?_
      (congrFun x _) (congrFun detachState _) ?_ (fun _ => kernel one here) lasting ?_
    · intro nobody
      exact state _ (by rw [nobody]; exact nofun)
    · intro other _ done
      rw [kernel other (fun same => running (same ▸ done))]
      exact done
    · rw [released]
      exact fun _ => id
  · intro one other first second thread also found too
    exact inv.creator one other first second thread also (roles _ _ _ found).2 (roles _ _ _ too).2
  · intro one other first second thread also found too
    exact inv.reclaimer one other first second thread also (roles _ _ _ found).2 (roles _ _ _ too).2
  · intro one other ended thread also found too
    exact inv.unclaimed one other ended thread also (roles _ _ _ found).2 (roles _ _ _ too).2
  · intro p user used
    rw [threadH] at used
    by_cases here : user = self
    · subst here
      exact uses p used
    · have differ : memory.threadH p ≠ some self := by
        rw [used]
        exact fun mine => here (Option.some.inj mine)
      exact (inv.used p user used).congr brk.ge id (by rw [issued]; exact fun _ => id) (congrFun x _)
        (kernel user here) (fun _ => congrFun detachState _) (state p differ) (last user here)
        (by rw [detachState]; exact .inl) (by rw [released]; exact id)
  · intro one
    by_cases here : one = self
    · subst here
      rw [Function.update_self]
      exact stands
    · rw [Function.update_of_ne here, kernel one here]
      exact (inv.stands one).congr (by rw [issued]; exact fun _ => id) (last one here)
        (by rw [threadH]; exact fun _ => Iff.rfl)
  · obtain ⟨threads, identifiers, current, once, justified, freed⟩ := inv.ledger
    constructor
    · rwa [issued]
    · rwa [issued]
    · rwa [issued, brk, x, threadH, pushed]
    · rwa [pushed]
    · rw [pushed, issued, x, released]
      intro other reclaimed
      obtain ⟨gone, free, entry⟩ := justified other reclaimed
      exact ⟨lasting other gone, free, entry⟩
    · rwa [released, issued]
  · rw [released, threadH, detachState]
    intro user free p used
    refine (inv.released user free p used).imp_right ?_
    rintro ⟨one, ended, had⟩
    have here : one ≠ self := by
      rintro rfl
      exact absurd (idle.symm.trans had) nofun
    refine ⟨one, ended, ?_⟩
    rw [Function.update_of_ne here, Memory.ptHandle, x]
    exact had

/-- A move that works on a structure that no thread uses. -/
theorem shape (inv : Inv nodes memory places) {chosen : Option Bool} {thread : PthreadT}
    (makes : role place = some (.creates chosen, thread))
    (same : next.kernel = memory.kernel ∧ next.issued = memory.issued ∧
      next.released = memory.released ∧ next.last = memory.last ∧ next.pushed = memory.pushed)
    (elsewhere : ∀ p, p ≠ thread.p → next.x p = memory.x p ∧ next.threadH p = memory.threadH p ∧
      next.state p = memory.state p ∧ next.detachState p = memory.detachState p)
    (nobody : memory.threadH thread.p = none) (still : next.threadH thread.p = none)
    (counter : next.x thread.p = memory.x thread.p ∨ memory.brk ≤ thread.p)
    (brk : memory.brk ≤ next.brk) (fewer : ∀ p ∈ others, p ∈ nodes)
    (left : thread.p ∉ others)
    (queue : next.reuse.Holds PTW32_THREAD_REUSE_EMPTY others)
    (order : next.pushed.map Prod.fst = next.popped ++ others)
    (locked : ∀ thread, next.reuseLock = some thread ↔
      Locks (Function.update places self place thread))
    (alone : ∀ other, other ≠ self → ∀ second also,
      role (places other) = some (.creates second, also) → also.p ≠ thread.p)
    (idle : ∀ ended also, role (places self) ≠ some (.reclaims ended, also))
    (claim : Claim next others self (.creates chosen) thread)
    (stands : Stands next place self (next.kernel self)) :
    Inv others next (Function.update places self place) := by
  obtain ⟨kernel, issued, released, last, pushed⟩ := same
  have apart : ∀ p user, memory.threadH p = some user → p ≠ thread.p := by
    rintro p user uses rfl
    exact absurd (nobody.symm.trans uses) nofun
  have roles : ∀ one claimed also,
      role (Function.update places self place one) = some (claimed, also) →
        one = self ∧ claimed = .creates chosen ∧ also = thread ∨
          one ≠ self ∧ role (places one) = some (claimed, also) := by
    intro one claimed also found
    rcases role_update found with ⟨here, new⟩ | old
    · obtain ⟨rfl, rfl⟩ := Prod.mk.inj (Option.some.inj (makes.symm.trans new))
      exact .inl ⟨here, rfl, rfl⟩
    · exact .inr old
  have users : ∀ p user, next.threadH p = some user ↔ memory.threadH p = some user := by
    intro p user
    by_cases here : p = thread.p
    · rw [here, nobody, still]
    · rw [(elsewhere p here).2.1]
  constructor
  · exact locked
  · exact queue
  · intro p present
    obtain ⟨low, below, free, fresh⟩ := inv.inside p (fewer p present)
    have here : p ≠ thread.p := fun same => left (same ▸ present)
    obtain ⟨-, threadH, state, -⟩ := elsewhere p here
    rw [threadH, state]
    exact ⟨low, below.trans_le brk, free, fresh⟩
  · exact inv.start.trans brk
  · exact order
  · intro one claimed also found
    rcases roles one claimed also found with ⟨rfl, rfl, rfl⟩ | ⟨here, old⟩
    · exact claim
    · have before := inv.claims one claimed also old
      have differ : also.p ≠ thread.p := by
        cases before with
        | creates => exact alone one here _ also old
        | dies uses | checks uses | reclaims uses => exact apart _ _ uses
      obtain ⟨x, threadH, state, detachState⟩ := elsewhere also.p differ
      exact before.congr brk (fewer _) threadH (fun _ => state) x detachState
        (by rw [kernel]; exact fun _ _ => id) (by rw [kernel]; exact fun _ => rfl)
        (by rw [last]; exact fun _ => id) (by rw [released]; exact fun _ => id)
  · intro one other first second also too found second' same
    rcases roles one _ also found with ⟨rfl, -, rfl⟩ | ⟨here, old⟩
    · rcases roles other _ too second' with ⟨rfl, -, -⟩ | ⟨there, old⟩
      · rfl
      · exact absurd same.symm (alone other there second too old)
    · rcases roles other _ too second' with ⟨rfl, -, rfl⟩ | ⟨there, old'⟩
      · exact absurd same (alone one here first also old)
      · exact inv.creator one other first second also too old old' same
  · intro one other first second also too found second' same
    rcases roles one _ also found with ⟨-, made, -⟩ | ⟨-, old⟩
    · exact absurd made nofun
    · rcases roles other _ too second' with ⟨-, made, -⟩ | ⟨-, old'⟩
      · exact absurd made nofun
      · exact inv.reclaimer one other first second also too old old' same
  · intro one other ended also too found second'
    rcases roles one _ also found with ⟨-, made, -⟩ | ⟨-, old⟩
    · exact absurd made nofun
    · rcases roles other _ too second' with ⟨-, made, -⟩ | ⟨-, old'⟩
      · exact absurd made nofun
      · exact inv.unclaimed one other ended also too old old'
  · intro p user used
    have before := (users p user).mp used
    obtain ⟨x, -, state, detachState⟩ := elsewhere p (apart p user before)
    exact (inv.used p user before).congr brk (fewer p) (by rw [issued]; exact fun _ => id) x
      (congrFun kernel user) (fun _ => detachState) state (by rw [last])
      (by rw [detachState]; exact .inl) (by rw [released]; exact id)
  · intro one
    by_cases here : one = self
    · subst here
      rw [Function.update_self]
      exact stands
    · rw [Function.update_of_ne here, kernel]
      exact (inv.stands one).congr (by rw [issued]; exact fun _ => id) (by rw [last])
        fun p => (users p one).symm
  · obtain ⟨threads, identifiers, current, once, justified, freed⟩ := inv.ledger
    have x : ∀ p, p < memory.brk → next.x p = memory.x p := by
      intro p below
      by_cases here : p = thread.p
      · rw [here] at below ⊢
        exact counter.resolve_right below.not_ge
      · exact (elsewhere p here).1
    constructor
    · rwa [issued]
    · rwa [issued]
    · rw [issued, pushed]
      intro user also entry
      obtain ⟨low, below, held⟩ := current user also entry
      rw [x _ below, users]
      exact ⟨low, below.trans_le brk, held⟩
    · rwa [pushed]
    · rw [pushed, issued, last, released]
      intro user reclaimed
      obtain ⟨gone, free, also, entry, older⟩ := justified user reclaimed
      refine ⟨gone, free, also, entry, ?_⟩
      rwa [x _ (current user also entry).2.1]
    · rwa [released, issued]
  · rw [released]
    intro user free p used
    have before := (users p user).mp used
    obtain ⟨x, -, -, detachState⟩ := elsewhere p (apart p user before)
    rw [detachState]
    refine (inv.released user free p before).imp_right ?_
    rintro ⟨one, ended, had⟩
    have here : one ≠ self := by
      rintro rfl
      exact idle _ _ had
    refine ⟨one, ended, ?_⟩
    rw [Function.update_of_ne here, Memory.ptHandle, x]
    exact had

/-- The structure of a thread is ready, and its identifier is handed out. -/
theorem issue (inv : Inv nodes memory places) {thread : PthreadT} {detached : Bool}
    {threadH : Thread} {kernel : Kernel}
    (makes : role (places self) = some (.creates (some detached), thread))
    (still : role place = none)
    (locked : holds place = holds (places self))
    (fresh : ∀ also, (threadH, also) ∉ memory.issued) (early : threadH ∉ memory.last)
    (new : memory.kernel threadH = .unborn ∨ memory.kernel threadH = .win32)
    (known : kernel = .created thread.p ∨ kernel = .posix thread.p)
    (stands : ∀ one, one = self ∨ one = threadH →
      Stands (memory.issue threadH kernel thread detached)
        (Function.update places self place one) one
        ((memory.issue threadH kernel thread detached).kernel one)) :
    Inv nodes (memory.issue threadH kernel thread detached) (Function.update places self place) := by
  have claim := inv.claims self _ thread makes
  obtain ⟨low, below, absent, nobody, begun, counter, chosen⟩ : 2 ≤ thread.p ∧
      thread.p < memory.brk ∧ thread.p ∉ nodes ∧ memory.threadH thread.p = none ∧
        memory.state thread.p ≠ .Last ∧ thread.x = memory.x thread.p ∧
          memory.detachState thread.p = detached := by
    cases claim with
    | creates low below absent nobody begun counter chosen =>
        exact ⟨low, below, absent, nobody, begun, counter, chosen detached rfl⟩
  have running : memory.kernel threadH ≠ .ended := by
    rcases new with same | same <;> rw [same] <;> exact nofun
  have unowned : ∀ p, memory.threadH p ≠ some threadH := fun p uses =>
    fresh _ (inv.used p threadH uses).issued
  have roles : ∀ one claimed also,
      role (Function.update places self place one) = some (claimed, also) →
        one ≠ self ∧ role (places one) = some (claimed, also) := by
    intro one claimed also found
    rcases role_update found with ⟨rfl, made⟩ | old
    · exact absurd (still.symm.trans made) nofun
    · exact old
  have free : ∀ user ∈ memory.released,
      user ∈ (memory.issue threadH kernel thread detached).released := by
    intro user found
    cases detached with
    | true => exact List.mem_append_left _ found
    | false => exact found
  have elsewhere : ∀ p, p ≠ thread.p →
      (memory.issue threadH kernel thread detached).threadH p = memory.threadH p :=
    fun p differ => Function.update_of_ne differ _ _
  have here : (memory.issue threadH kernel thread detached).threadH thread.p = some threadH :=
    Function.update_self _ _ _
  have kept : ∀ one, one ≠ threadH →
      (memory.issue threadH kernel thread detached).kernel one = memory.kernel one :=
    fun one differ => Function.update_of_ne differ _ _
  have member : (threadH, thread) ∈ (memory.issue threadH kernel thread detached).issued :=
    List.mem_append_right _ (List.mem_singleton.mpr rfl)
  constructor
  · exact owner_keep inv.locked (locks_congr locked)
  · exact inv.queue
  · intro p present
    rw [elsewhere p fun same => absent (same ▸ present)]
    exact inv.inside p present
  · exact inv.start
  · exact inv.order
  · intro one claimed also found
    obtain ⟨differ, old⟩ := roles one claimed also found
    have before := inv.claims one claimed also old
    have apart : also.p ≠ thread.p := by
      intro same
      cases before with
      | creates => exact differ (inv.creator one self _ _ also thread old makes same)
      | dies uses | checks uses | reclaims uses =>
          rw [same, nobody] at uses
          exact absurd uses nofun
    refine before.congr le_rfl id (elsewhere _ apart) (fun _ => rfl) rfl rfl ?_ ?_ (fun _ => id) free
    · intro other _ gone
      rw [kept other fun same => running (same ▸ gone)]
      exact gone
    · rintro rfl
      refine kept one fun same => ?_
      cases before with
      | dies _ posix =>
          rw [same] at posix
          rcases new with other | other <;> exact absurd (other.symm.trans posix) nofun
  · intro one other first second also too found second' same
    exact inv.creator one other first second also too (roles _ _ _ found).2 (roles _ _ _ second').2
      same
  · intro one other first second also too found second' same
    exact inv.reclaimer one other first second also too (roles _ _ _ found).2
      (roles _ _ _ second').2 same
  · intro one other ended also too found second'
    exact inv.unclaimed one other ended also too (roles _ _ _ found).2 (roles _ _ _ second').2
  · intro p user used
    by_cases same : p = thread.p
    · subst same
      rw [here] at used
      obtain rfl := Option.some.inj used
      have kernel_self : (memory.issue threadH kernel thread detached).kernel threadH = kernel :=
        Function.update_self _ _ _
      refine ⟨low, below, absent, ?_, ?_, iff_of_false begun early, ?_⟩
      · change (threadH, (⟨thread.p, memory.x thread.p⟩ : PthreadT)) ∈ _
        rw [← counter]
        exact member
      · rw [kernel_self]
        exact known.imp_right .inl
      · intro free
        obtain rfl : detached = true := chosen.symm.trans free
        exact List.mem_append_right _ (List.mem_singleton.mpr rfl)
    · rw [elsewhere p same] at used
      have differ : user ≠ threadH := by
        rintro rfl
        exact unowned p used
      exact (inv.used p user used).congr le_rfl id (fun _ => List.mem_append_left _) rfl
        (kept user differ) (fun _ => rfl) rfl Iff.rfl .inl (free user)
  · intro one
    by_cases touched : one = self ∨ one = threadH
    · exact stands one touched
    · rw [not_or] at touched
      rw [Function.update_of_ne touched.1, kept one touched.2]
      refine (inv.stands one).congr ?_ Iff.rfl ?_
      · intro also entry
        rcases List.mem_append.mp entry with old | added
        · exact old
        · exact absurd (Prod.mk.inj (List.mem_singleton.mp added)).1 touched.2
      · intro p
        by_cases same : p = thread.p
        · rw [same, here, nobody]
          exact iff_of_false nofun fun mine => touched.2 (Option.some.inj mine).symm
        · rw [elsewhere p same]
  · obtain ⟨threads, identifiers, current, once, justified, freed⟩ := inv.ledger
    have unknown : ∀ user, (user, thread) ∉ memory.issued := by
      intro user entry
      obtain ⟨-, -, ⟨-, uses⟩ | ⟨older, -⟩⟩ := current user thread entry
      · exact absurd (nobody.symm.trans uses) nofun
      · exact absurd counter older.ne
    constructor
    · change ((memory.issued ++ [(threadH, thread)]).map Prod.fst).Nodup
      rw [List.map_append]
      refine threads.append (List.nodup_singleton _) (List.disjoint_singleton.mpr ?_)
      intro found
      obtain ⟨⟨user, also⟩, entry, rfl⟩ := List.mem_map.mp found
      exact fresh also entry
    · change ((memory.issued ++ [(threadH, thread)]).map Prod.snd).Nodup
      rw [List.map_append]
      refine identifiers.append (List.nodup_singleton _) (List.disjoint_singleton.mpr ?_)
      intro found
      obtain ⟨⟨user, also⟩, entry, rfl⟩ := List.mem_map.mp found
      exact unknown user entry
    · intro user also entry
      rcases List.mem_append.mp entry with old | added
      · obtain ⟨first, second, held⟩ := current user also old
        refine ⟨first, second, ?_⟩
        rcases held with ⟨counts, uses⟩ | older
        · have differ : also.p ≠ thread.p := by
            intro same
            rw [same, nobody] at uses
            exact absurd uses nofun
          exact .inl ⟨counts, (elsewhere _ differ).trans uses⟩
        · exact .inr older
      · obtain ⟨rfl, rfl⟩ := Prod.mk.inj (List.mem_singleton.mp added)
        exact ⟨low, below, .inl ⟨counter, here⟩⟩
    · exact once
    · intro user reclaimed
      obtain ⟨gone, found, also, entry, older⟩ := justified user reclaimed
      exact ⟨gone, free user found, also, List.mem_append_left _ entry, older⟩
    · intro user found
      cases detached with
      | false =>
          obtain ⟨also, entry⟩ := freed user found
          exact ⟨also, List.mem_append_left _ entry⟩
      | true =>
          rcases List.mem_append.mp found with old | added
          · obtain ⟨also, entry⟩ := freed user old
            exact ⟨also, List.mem_append_left _ entry⟩
          · obtain rfl := List.mem_singleton.mp added
            exact ⟨thread, member⟩
  · intro user found p used
    by_cases same : p = thread.p
    · subst same
      rw [here] at used
      obtain rfl := Option.some.inj used
      cases detached with
      | true => exact .inl chosen
      | false =>
          obtain ⟨also, entry⟩ := inv.ledger.freed threadH found
          exact absurd entry (fresh also)
    · rw [elsewhere p same] at used
      have differ : user ≠ threadH := by
        rintro rfl
        exact unowned p used
      have old : user ∈ memory.released := by
        cases detached with
        | false => exact found
        | true =>
            refine (List.mem_append.mp found).resolve_right fun added => ?_
            exact differ (List.mem_singleton.mp added)
      refine (inv.released user old p used).imp_right ?_
      rintro ⟨one, ended, had⟩
      have apart : one ≠ self := by
        rintro rfl
        exact absurd (makes.symm.trans had) nofun
      refine ⟨one, ended, ?_⟩
      rw [Function.update_of_ne apart]
      exact had

omit [DecidableEq Thread] in
theorem holds_of_checks {thread : PthreadT} (checks : role place = some (.checks, thread)) :
    holds place = true := by
  unfold role at checks
  split at checks <;> first | rfl | exact absurd checks (by simp)

omit [DecidableEq Thread] in
/-- Nobody else has a structure in hand that is checked. -/
theorem checker_alone (inv : Inv nodes memory places) {thread : PthreadT}
    (checks : role (places self) = some (.checks, thread)) {one : Thread} {claimed : Role}
    {also : PthreadT} (differ : one ≠ self) (has : role (places one) = some (claimed, also)) :
    also.p ≠ thread.p := by
  intro same
  have claim := inv.claims one claimed also has
  cases inv.claims self _ _ checks with
  | checks uses counter joinable =>
      cases claim with
      | creates _ _ _ nobody =>
          rw [same, uses] at nobody
          exact absurd nobody nofun
      | dies _ _ _ detached =>
          rw [same, joinable] at detached
          exact absurd detached nofun
      | checks =>
          exact differ (owner_unique inv.locked
            (holds_of_checks has) (holds_of_checks checks))
      | reclaims => exact inv.unclaimed self one _ thread also checks has same.symm

/-- A thread that has not come to its end is marked as detached. -/
theorem detach (inv : Inv nodes memory places) {thread : PthreadT}
    (checks : role (places self) = some (.checks, thread)) (running : memory.state thread.p ≠ .Last)
    (still : role place = none) (locked : holds place = true)
    (stands : Stands memory place self (memory.kernel self)) :
    Inv nodes (({ memory.unlockState thread.p with
      released := memory.released ++ (memory.threadH thread.p).toList } :
        Memory Thread).setDetachState thread.p true) (Function.update places self place) := by
  have alone : ∀ one, one ≠ self → ∀ claimed also, role (places one) = some (claimed, also) →
      also.p ≠ thread.p := fun one differ claimed also => inv.checker_alone checks differ
  obtain ⟨user, uses⟩ : ∃ user, memory.threadH thread.p = some user := by
    cases inv.claims self _ _ checks with
    | checks uses => exact ⟨_, uses⟩
  have locks := holds_of_checks checks
  have roles : ∀ one claimed also,
      role (Function.update places self place one) = some (claimed, also) →
        one ≠ self ∧ role (places one) = some (claimed, also) := by
    intro one claimed also found
    rcases role_update found with ⟨rfl, made⟩ | old
    · exact absurd (still.symm.trans made) nofun
    · exact old
  rw [uses]
  constructor
  · exact owner_keep inv.locked (iff_of_true locked locks)
  · exact inv.queue
  · exact inv.inside
  · exact inv.start
  · exact inv.order
  · intro one claimed also found
    obtain ⟨differ, old⟩ := roles one claimed also found
    exact (inv.claims one claimed also old).congr le_rfl id rfl (fun _ => rfl) rfl
      (Function.update_of_ne (alone one differ claimed also old) _ _) (fun _ _ => id)
      (fun _ => rfl) (fun _ => id) fun _ => List.mem_append_left _
  · intro one other first second also too found second' same
    exact inv.creator one other first second also too (roles _ _ _ found).2 (roles _ _ _ second').2
      same
  · intro one other first second also too found second' same
    exact inv.reclaimer one other first second also too (roles _ _ _ found).2
      (roles _ _ _ second').2 same
  · intro one other ended also too found second'
    exact inv.unclaimed one other ended also too (roles _ _ _ found).2 (roles _ _ _ second').2
  · intro p one used
    have before := inv.used p one used
    refine before.congr le_rfl id (fun _ => id) rfl rfl ?_ rfl Iff.rfl ?_
      (List.mem_append_left _)
    · intro gone
      refine Function.update_of_ne ?_ _ _
      rintro rfl
      rcases before.kernel with created | posix | ⟨-, last, -⟩
      · exact absurd (gone.symm.trans created) nofun
      · exact absurd (gone.symm.trans posix) nofun
      · exact running (before.last.mpr last)
    · intro free
      by_cases same : p = thread.p
      · subst same
        obtain rfl := Option.some.inj (uses.symm.trans used)
        exact .inr (List.mem_append_right _ (List.mem_singleton.mpr rfl))
      · have unchanged : (Function.update memory.detachState thread.p true) p =
            memory.detachState p := Function.update_of_ne same _ _
        exact .inl (unchanged.symm.trans free)
  · intro one
    by_cases here : one = self
    · subst here
      rw [Function.update_self]
      exact stands.congr (fun _ => id) Iff.rfl fun _ => Iff.rfl
    · rw [Function.update_of_ne here]
      exact (inv.stands one).congr (fun _ => id) Iff.rfl fun _ => Iff.rfl
  · obtain ⟨threads, identifiers, current, once, justified, freed⟩ := inv.ledger
    refine ⟨threads, identifiers, current, once, ?_, ?_⟩
    · intro one reclaimed
      obtain ⟨gone, found, entry⟩ := justified one reclaimed
      exact ⟨gone, List.mem_append_left _ found, entry⟩
    · intro one found
      rcases List.mem_append.mp found with old | added
      · exact freed one old
      · obtain rfl := List.mem_singleton.mp added
        exact ⟨_, (inv.used _ one uses).issued⟩
  · intro one found p used
    by_cases same : p = thread.p
    · subst same
      exact .inl (Function.update_self _ _ _)
    · have old : one ∈ memory.released := by
        refine (List.mem_append.mp found).resolve_right fun added => same ?_
        obtain rfl := List.mem_singleton.mp added
        -- a thread has one structure only
        have here := (inv.used p one used).issued
        have there := (inv.used _ one uses).issued
        exact congrArg PthreadT.p (inv.ledger.unique here there)
      have unchanged : ((({ memory.unlockState thread.p with
          released := memory.released ++ (some user).toList } :
            Memory Thread).setDetachState thread.p true).detachState p = memory.detachState p) :=
        Function.update_of_ne same _ _
      rw [unchanged]
      refine (inv.released one old p used).imp_right ?_
      rintro ⟨reclaims, ended, had⟩
      have apart : reclaims ≠ self := by
        rintro rfl
        exact absurd (checks.symm.trans had) nofun
      refine ⟨reclaims, ended, ?_⟩
      rw [Function.update_of_ne apart]
      exact had

/-- A thread that has come to its end is destroyed by whoever detaches it. -/
theorem reclaim (inv : Inv nodes memory places) {thread : PthreadT}
    (checks : role (places self) = some (.checks, thread)) (gone : memory.state thread.p = .Last)
    (reclaims : role place = some (.reclaims false, thread)) (locked : holds place = true)
    (stands : Stands memory place self (memory.kernel self)) :
    Inv nodes { memory.unlockState thread.p with
      released := memory.released ++ (memory.threadH thread.p).toList }
      (Function.update places self place) := by
  have alone : ∀ one, one ≠ self → ∀ claimed also, role (places one) = some (claimed, also) →
      also.p ≠ thread.p := fun one differ claimed also => inv.checker_alone checks differ
  obtain ⟨user, uses, counter, joinable⟩ : ∃ user, memory.threadH thread.p = some user ∧
      thread.x = memory.x thread.p ∧ memory.detachState thread.p = false := by
    cases inv.claims self _ _ checks with
    | checks uses counter joinable => exact ⟨_, uses, counter, joinable⟩
  have last := (inv.used _ _ uses).last.mp gone
  have locks := holds_of_checks checks
  have roles : ∀ one claimed also,
      role (Function.update places self place one) = some (claimed, also) →
        one = self ∧ claimed = .reclaims false ∧ also = thread ∨
          one ≠ self ∧ role (places one) = some (claimed, also) := by
    intro one claimed also found
    rcases role_update found with ⟨here, new⟩ | old
    · obtain ⟨rfl, rfl⟩ := Prod.mk.inj (Option.some.inj (reclaims.symm.trans new))
      exact .inl ⟨here, rfl, rfl⟩
    · exact .inr old
  rw [uses]
  constructor
  · exact owner_keep inv.locked (iff_of_true locked locks)
  · exact inv.queue
  · exact inv.inside
  · exact inv.start
  · exact inv.order
  · intro one claimed also found
    rcases roles one claimed also found with ⟨rfl, rfl, rfl⟩ | ⟨-, old⟩
    · exact .reclaims uses last (List.mem_append_right _ (List.mem_singleton.mpr rfl)) counter
        joinable nofun
    · exact (inv.claims one claimed also old).congr le_rfl id rfl (fun _ => rfl) rfl rfl
        (fun _ _ => id) (fun _ => rfl) (fun _ => id) fun _ => List.mem_append_left _
  · intro one other first second also too found second' same
    rcases roles one _ also found with ⟨-, made, -⟩ | ⟨-, old⟩
    · exact absurd made nofun
    · rcases roles other _ too second' with ⟨-, made, -⟩ | ⟨-, old'⟩
      · exact absurd made nofun
      · exact inv.creator one other first second also too old old' same
  · intro one other first second also too found second' same
    rcases roles one _ also found with ⟨rfl, -, rfl⟩ | ⟨here, old⟩
    · rcases roles other _ too second' with ⟨rfl, -, -⟩ | ⟨there, old⟩
      · rfl
      · exact absurd same.symm (alone other there _ too old)
    · rcases roles other _ too second' with ⟨rfl, -, rfl⟩ | ⟨there, old'⟩
      · exact absurd same (alone one here _ also old)
      · exact inv.reclaimer one other first second also too old old' same
  · intro one other ended also too found second'
    rcases roles one _ also found with ⟨-, made, -⟩ | ⟨here, old⟩
    · exact absurd made nofun
    · rcases roles other _ too second' with ⟨-, -, rfl⟩ | ⟨-, old'⟩
      · exact alone one here _ also old
      · exact inv.unclaimed one other ended also too old old'
  · intro p one used
    exact (inv.used p one used).congr le_rfl id (fun _ => id) rfl rfl (fun _ => rfl) rfl Iff.rfl
      .inl (List.mem_append_left _)
  · intro one
    by_cases here : one = self
    · subst here
      rw [Function.update_self]
      exact stands.congr (fun _ => id) Iff.rfl fun _ => Iff.rfl
    · rw [Function.update_of_ne here]
      exact (inv.stands one).congr (fun _ => id) Iff.rfl fun _ => Iff.rfl
  · obtain ⟨threads, identifiers, current, once, justified, freed⟩ := inv.ledger
    refine ⟨threads, identifiers, current, once, ?_, ?_⟩
    · intro one reclaimed
      obtain ⟨done, found, entry⟩ := justified one reclaimed
      exact ⟨done, List.mem_append_left _ found, entry⟩
    · intro one found
      rcases List.mem_append.mp found with old | added
      · exact freed one old
      · obtain rfl := List.mem_singleton.mp added
        exact ⟨_, (inv.used _ one uses).issued⟩
  · intro one found p used
    rcases List.mem_append.mp found with old | added
    · refine (inv.released one old p used).imp_right ?_
      rintro ⟨reclaimer, ended, had⟩
      have apart : reclaimer ≠ self := by
        rintro rfl
        exact absurd (checks.symm.trans had) nofun
      refine ⟨reclaimer, ended, ?_⟩
      rw [Function.update_of_ne apart]
      exact had
    · obtain rfl := List.mem_singleton.mp added
      have here := inv.ledger.unique (inv.used p one used).issued (inv.used _ one uses).issued
      refine .inr ⟨self, false, ?_⟩
      rw [Function.update_self, reclaims]
      change some (Role.reclaims false, thread) = some (Role.reclaims false, memory.ptHandle p)
      rw [here, Memory.ptHandle, ← counter]

end Inv

end ThreadReuse

end CodeCollect.Pthreads
