import CodeCollect.Pthreads.ThreadReuseOwners

namespace CodeCollect.Pthreads

open CodeCollect.Library Program

namespace ThreadReuse

variable {Thread : Type} [DecidableEq Thread] {memory next : Memory Thread} {nodes : List Nat}
  {places : Thread → Place} {self : Thread} {place reached : Place} {kernel : Kernel}

/-- A structure goes back to the queue when nobody uses it or when its thread is done with it. -/
def Returns (claimed : Role) : Prop :=
  (∃ chosen, claimed = .creates chosen) ∨ claimed = .dies ∨ claimed = .reclaims true

namespace Inv

omit [DecidableEq Thread] in
/-- Nobody else has a structure in hand that goes back to the queue. -/
theorem returner_alone (inv : Inv nodes memory places) {claimed : Role} {thread : PthreadT}
    (has : role (places self) = some (claimed, thread)) (returns : Returns claimed) {one : Thread}
    (differ : one ≠ self) {other : Role} {also : PthreadT}
    (holds : role (places one) = some (other, also)) : also.p ≠ thread.p := by
  intro same
  have theirs := inv.claims one other also holds
  rcases returns with ⟨chosen, rfl⟩ | rfl | rfl
  · cases inv.claims self _ thread has with
    | creates _ _ _ nobody =>
        rw [← same] at nobody
        cases theirs with
        | creates => exact differ (inv.creator one self _ _ also thread holds has same)
        | dies uses | checks uses | reclaims uses => exact absurd (nobody.symm.trans uses) nofun
  · cases inv.claims self _ thread has with
    | dies mine _ _ detached =>
        rw [← same] at mine detached
        cases theirs with
        | creates _ _ _ nobody => exact absurd (nobody.symm.trans mine) nofun
        | dies uses => exact differ (Option.some.inj (uses.symm.trans mine))
        | checks _ _ joinable | reclaims _ _ _ _ joinable =>
            exact absurd (joinable.symm.trans detached) nofun
  · cases inv.claims self _ thread has with
    | reclaims uses _ _ _ joinable =>
        rw [← same] at uses joinable
        cases theirs with
        | creates _ _ _ nobody => exact absurd (nobody.symm.trans uses) nofun
        | dies _ _ _ detached => exact absurd (joinable.symm.trans detached) nofun
        | checks => exact inv.unclaimed one self _ also thread holds has same
        | reclaims => exact differ (inv.reclaimer one self _ _ also thread holds has same)

omit [DecidableEq Thread] in
/-- A structure that goes back is not in the queue, and its thread has ended or is about to. -/
theorem returned (inv : Inv nodes memory places) {claimed : Role} {thread : PthreadT}
    (has : role (places self) = some (claimed, thread)) (returns : Returns claimed)
    (dying : claimed = .dies → late (places self) = true) :
    2 ≤ thread.p ∧ thread.p < memory.brk ∧ thread.p ∉ nodes ∧
      ∀ user, memory.threadH thread.p = some user → user ∈ memory.last ∧
        user ∈ memory.released ∧ (user = self ∨ memory.kernel user = .ended) := by
  have claim := inv.claims self _ thread has
  rcases returns with ⟨chosen, rfl⟩ | rfl | rfl
  · cases claim with
    | creates low below absent nobody =>
        exact ⟨low, below, absent, fun user uses => absurd (nobody.symm.trans uses) nofun⟩
  · cases claim with
    | dies mine posix _ detached =>
        have used := inv.used _ _ mine
        refine ⟨used.low, used.below, used.absent, fun user uses => ?_⟩
        obtain rfl := Option.some.inj (mine.symm.trans uses)
        have stands := inv.stands self
        rw [posix] at stands
        cases stands with
        | posix gone => exact ⟨gone.mp (dying rfl), used.detached detached, .inl rfl⟩
  · cases claim with
    | reclaims uses gone free _ _ ended =>
        have used := inv.used _ _ uses
        refine ⟨used.low, used.below, used.absent, fun user also => ?_⟩
        obtain rfl := Option.some.inj (uses.symm.trans also)
        exact ⟨gone, free, .inr (ended rfl)⟩

omit [DecidableEq Thread] in
/-- The identifier of a pushed structure gets older. -/
theorem not_pushed (inv : Inv nodes memory places) {p : Nat} {user : Thread}
    (uses : memory.threadH p = some user) : user ∉ memory.pushed.filterMap Prod.snd := by
  intro found
  obtain ⟨-, -, also, entry, older⟩ := inv.ledger.justified user found
  obtain rfl := inv.ledger.unique entry (inv.used p user uses).issued
  exact lt_irrefl _ older

/-- A structure goes back to the queue. -/
theorem push (inv : Inv nodes memory places) {claimed : Role} {thread : PthreadT}
    (has : role (places self) = some (claimed, thread)) (returns : Returns claimed)
    (dying : claimed = .dies → late (places self) = true)
    (room : memory.x thread.p + 1 < COUNTER_VALUES)
    (locks : holds (places self) = true) (unlocks : holds place = false) (still : role place = none)
    (stands : Stands (memory.ptw32_threadReusePush thread.p) place self (memory.kernel self)) :
    Inv (nodes ++ [thread.p]) (memory.ptw32_threadReusePush thread.p)
      (Function.update places self place) := by
  obtain ⟨low, below, absent, done⟩ := inv.returned has returns dying
  have alone : ∀ one, one ≠ self → ∀ other also, role (places one) = some (other, also) →
      also.p ≠ thread.p := fun one differ other also => inv.returner_alone has returns differ
  have roles : ∀ one other also,
      role (Function.update places self place one) = some (other, also) →
        one ≠ self ∧ role (places one) = some (other, also) := by
    intro one other also found
    rcases role_update found with ⟨rfl, made⟩ | old
    · exact absurd (still.symm.trans made) nofun
    · exact old
  have bumped : (memory.ptw32_threadReusePush thread.p).x thread.p = memory.x thread.p + 1 :=
    (Function.update_self _ _ _).trans (Nat.mod_eq_of_lt room)
  have x : ∀ p, p ≠ thread.p → (memory.ptw32_threadReusePush thread.p).x p = memory.x p :=
    fun p differ => Function.update_of_ne differ _ _
  have state : ∀ p, p ≠ thread.p →
      (memory.ptw32_threadReusePush thread.p).state p = memory.state p :=
    fun p differ => Function.update_of_ne differ _ _
  have detachState : ∀ p, p ≠ thread.p →
      (memory.ptw32_threadReusePush thread.p).detachState p = memory.detachState p :=
    fun p differ => Function.update_of_ne differ _ _
  have threadH : ∀ p, p ≠ thread.p →
      (memory.ptw32_threadReusePush thread.p).threadH p = memory.threadH p :=
    fun p differ => Function.update_of_ne differ _ _
  have wiped : (memory.ptw32_threadReusePush thread.p).threadH thread.p = none :=
    Function.update_self _ _ _
  have users : ∀ p user, (memory.ptw32_threadReusePush thread.p).threadH p = some user →
      p ≠ thread.p ∧ memory.threadH p = some user := by
    intro p user used
    have differ : p ≠ thread.p := by
      rintro rfl
      exact absurd (wiped.symm.trans used) nofun
    exact ⟨differ, (threadH p differ).symm.trans used⟩
  have fewer : ∀ p, p ≠ thread.p → p ∈ nodes ++ [thread.p] → p ∈ nodes := fun p differ found =>
    (List.mem_append.mp found).resolve_right fun added => differ (List.mem_singleton.mp added)
  have reclaimed : (memory.ptw32_threadReusePush thread.p).pushed.filterMap Prod.snd =
      memory.pushed.filterMap Prod.snd ++ (memory.threadH thread.p).toList := by
    change (memory.pushed ++ [(thread.p, memory.threadH thread.p)]).filterMap Prod.snd = _
    rw [List.filterMap_append]
    cases memory.threadH thread.p <;> rfl
  constructor
  · exact owner_release inv.locked locks (by rw [Locks, unlocks]; exact Bool.false_ne_true)
  · exact inv.queue.push absent (by rw [PTW32_THREAD_REUSE_EMPTY]; omega)
  · intro p present
    by_cases same : p = thread.p
    · subst same
      have reused : (memory.ptw32_threadReusePush thread.p).state thread.p = .Reuse :=
        Function.update_self _ _ _
      exact ⟨low, below, wiped, by rw [reused]; decide⟩
    · rw [threadH p same, state p same]
      exact inv.inside p (fewer p same present)
  · exact inv.start
  · change (memory.pushed ++ [(thread.p, memory.threadH thread.p)]).map Prod.fst = _
    rw [List.map_append, inv.order, List.append_assoc]
    rfl
  · intro one other also found
    obtain ⟨differ, old⟩ := roles one other also found
    have apart := alone one differ other also old
    exact (inv.claims one other also old).congr le_rfl (fewer _ apart) (threadH _ apart)
      (fun _ => state _ apart) (x _ apart) (detachState _ apart) (fun _ _ => id) (fun _ => rfl)
      (fun _ => id) fun _ => id
  · intro one other first second also too found second' same
    exact inv.creator one other first second also too (roles _ _ _ found).2 (roles _ _ _ second').2
      same
  · intro one other first second also too found second' same
    exact inv.reclaimer one other first second also too (roles _ _ _ found).2
      (roles _ _ _ second').2 same
  · intro one other ended also too found second'
    exact inv.unclaimed one other ended also too (roles _ _ _ found).2 (roles _ _ _ second').2
  · intro p user used
    obtain ⟨differ, old⟩ := users p user used
    exact (inv.used p user old).congr le_rfl (fewer p differ) (fun _ => id) (x p differ) rfl
      (fun _ => detachState p differ) (state p differ) Iff.rfl
      (by rw [detachState p differ]; exact .inl) id
  · intro one
    by_cases here : one = self
    · subst here
      rw [Function.update_self]
      exact stands
    · rw [Function.update_of_ne here]
      by_cases mine : memory.threadH thread.p = some one
      · have before := inv.stands one
        have ended := (done one mine).2.2.resolve_left here
        change Stands _ _ _ (memory.kernel one)
        rw [ended] at before ⊢
        cases before with
        | ended early explicit => exact .ended early explicit
      · refine (inv.stands one).congr (fun _ => id) Iff.rfl fun p => ?_
        by_cases same : p = thread.p
        · rw [same, wiped]
          exact iff_of_false mine nofun
        · rw [threadH p same]
  · obtain ⟨threads, identifiers, current, once, justified, freed⟩ := inv.ledger
    have older : ∀ also : PthreadT, also.x < memory.x also.p →
        also.x < (memory.ptw32_threadReusePush thread.p).x also.p := by
      intro also before
      by_cases same : also.p = thread.p
      · rw [same] at before ⊢
        rw [bumped]
        omega
      · rwa [x _ same]
    constructor
    · exact threads
    · exact identifiers
    · intro user also entry
      obtain ⟨first, second, held⟩ := current user also entry
      refine ⟨first, second, ?_⟩
      rw [reclaimed]
      rcases held with ⟨counts, uses⟩ | ⟨before, gone⟩
      · by_cases same : also.p = thread.p
        · rw [same] at counts uses
          refine .inr ⟨?_, List.mem_append_right _ ?_⟩
          · rw [same, bumped]
            omega
          · rw [uses]
            exact List.mem_singleton.mpr rfl
        · rw [x _ same, threadH _ same]
          exact .inl ⟨counts, uses⟩
      · exact .inr ⟨older also before, List.mem_append_left _ gone⟩
    · rw [reclaimed]
      cases uses : memory.threadH thread.p with
      | none => rwa [Option.toList, List.append_nil]
      | some user =>
          exact once.append (List.nodup_singleton user)
            (List.disjoint_singleton.mpr (inv.not_pushed uses))
    · rw [reclaimed]
      intro user found
      rcases List.mem_append.mp found with old | added
      · obtain ⟨gone, free, also, entry, before⟩ := justified user old
        exact ⟨gone, free, also, entry, older also before⟩
      · have uses := Option.mem_toList.mp added
        obtain ⟨gone, free, -⟩ := done user uses
        refine ⟨gone, free, memory.ptHandle thread.p, (inv.used _ _ uses).issued, ?_⟩
        change memory.x thread.p < _
        rw [Memory.ptHandle, bumped]
        omega
    · exact freed
  · intro user free p used
    obtain ⟨differ, old⟩ := users p user used
    rw [detachState p differ]
    refine (inv.released user free p old).imp_right ?_
    rintro ⟨one, ended, had⟩
    have apart : one ≠ self := by
      rintro rfl
      rw [has] at had
      exact differ (congrArg PthreadT.p (Prod.mk.inj (Option.some.inj had)).2).symm
    refine ⟨one, ended, ?_⟩
    rw [Function.update_of_ne apart, Memory.ptHandle, x p differ]
    exact had

end Inv

omit [DecidableEq Thread] in
/-- A thread stays what it is while it walks. -/
theorem Stands.move (stands : Stands memory place self kernel) (lateness : late reached = late place)
    (own : implicit reached = true → kernel = .win32) (before : place ≠ .clearing)
    (after : reached ≠ .clearing) : Stands memory reached self kernel := by
  have explicit : kernel ≠ .win32 → implicit reached = false := fun differ =>
    Bool.eq_false_of_not_eq_true fun made => differ (own made)
  cases stands with
  | unborn fresh early elsewhere =>
      exact .unborn fresh early (lateness.trans elsewhere) (explicit nofun)
  | win32 fresh early elsewhere => exact .win32 fresh early (lateness.trans elsewhere)
  | created uses early elsewhere =>
      exact .created uses early (lateness.trans elsewhere) (explicit nofun)
  | posix gone _ uses clear =>
      refine .posix ?_ (explicit nofun) (fun _ => uses before) fun same => absurd same after
      rw [lateness]
      exact gone
  | ended elsewhere => exact .ended (lateness.trans elsewhere) (explicit nofun)

theorem ne_clearing (early : late place = false) : place ≠ .clearing := by
  rintro rfl
  exact absurd early nofun

theorem early_of_creates {chosen : Option Bool} {thread : PthreadT}
    (makes : role place = some (.creates chosen, thread)) : late place = false := by
  unfold role at makes
  split at makes <;> first | rfl | exact absurd makes (by simp)

namespace Inv

omit [DecidableEq Thread] in
/-- A thread has one structure at most. -/
theorem one_structure (inv : Inv nodes memory places) {p q : Nat} {user : Thread}
    (one : memory.threadH p = some user) (other : memory.threadH q = some user) : q = p :=
  congrArg PthreadT.p
    (inv.ledger.unique (inv.used q user other).issued (inv.used p user one).issued)

omit [DecidableEq Thread] in
/-- A thread without an identifier has no structure. -/
theorem unbound (inv : Inv nodes memory places) {user : Thread}
    (fresh : ∀ thread, (user, thread) ∉ memory.issued) (p : Nat) : memory.threadH p ≠ some user :=
  fun uses => fresh _ (inv.used p user uses).issued

omit [DecidableEq Thread] in
theorem kernel_of_implicit (inv : Inv nodes memory places)
    (made : implicit (places self) = true) : memory.kernel self = .win32 := by
  have stands := inv.stands self
  generalize memory.kernel self = kernel at stands
  cases stands with
  | win32 => rfl
  | unborn _ _ _ explicit | created _ _ _ explicit | posix _ explicit | ended _ explicit =>
      exact absurd (made.symm.trans explicit) nofun

/-- A thread walks with what it has in hand. -/
theorem walk_still (inv : Inv nodes memory places) {reuseLock : Option Thread}
    (locked : ∀ thread, reuseLock = some thread ↔ Locks (Function.update places self place thread))
    (still : role place = role (places self))
    (stands : Stands memory place self (memory.kernel self)) :
    Inv nodes { memory with reuseLock := reuseLock } (Function.update places self place) := by
  refine inv.walk locked ?_ ?_ ?_ ?_ ?_ stands
  · exact fun claimed thread found => inv.claims self claimed thread (still ▸ found)
  · exact fun chosen thread found => ⟨chosen, still ▸ found⟩
  · exact fun ended thread found => ⟨ended, still ▸ found⟩
  · exact fun ended thread found => ⟨ended, still ▸ found⟩
  · exact fun thread found other ended also => inv.unclaimed self other ended thread also
      (still ▸ found)

theorem lock (inv : Inv nodes memory places) (free : memory.reuseLock = none)
    (inside : holds place = true) (still : role place = role (places self))
    (stands : Stands memory place self (memory.kernel self)) :
    Inv nodes { memory with reuseLock := some self } (Function.update places self place) :=
  inv.walk_still (owner_acquire inv.locked free inside) still stands

theorem unlock (inv : Inv nodes memory places) (inside : holds (places self) = true)
    (outside : holds place = false) (still : role place = role (places self))
    (stands : Stands memory place self (memory.kernel self)) :
    Inv nodes memory.unlock (Function.update places self place) :=
  inv.walk_still (owner_release inv.locked inside (by rw [Locks, outside]; exact Bool.false_ne_true)) still
    stands

/-- A thread becomes known to the library, or it exits without ever being known. -/
theorem anonymous (inv : Inv nodes memory places) {kernel : Kernel}
    (outside : places self = .outside) (known : memory.kernel self ≠ .ended)
    (fresh : ∀ thread, (self, thread) ∉ memory.issued)
    (stands : Stands memory .outside self kernel) :
    Inv nodes (memory.setKernel self kernel) (Function.update places self .outside) := by
  have here : (memory.setKernel self kernel).kernel self = kernel := Function.update_self _ _ _
  refine inv.turn ⟨rfl, rfl, rfl, rfl, rfl, rfl, rfl, rfl, rfl, rfl⟩
    (fun other differ => Function.update_of_ne differ _ _) (fun _ _ => rfl) (fun _ _ => Iff.rfl) id
    known (by rw [outside]; rfl) rfl (by rw [outside]) ?_ ?_
  · exact fun p uses => absurd uses (inv.unbound fresh p)
  · rw [here]
    exact stands.congr (fun _ => id) Iff.rfl fun _ => Iff.rfl

theorem throw (inv : Inv nodes memory places) {p : Nat} (outside : places self = .outside)
    (posix : memory.kernel self = .posix p) :
    Inv nodes (memory.setState p .Exiting) (Function.update places self .outside) := by
  have stands := inv.stands self
  rw [outside, posix] at stands
  cases stands with
  | posix gone explicit uses clear =>
      have mine := uses nofun
      have early : self ∉ memory.last := fun last => absurd (gone.mpr last) nofun
      refine inv.turn ⟨rfl, rfl, rfl, rfl, rfl, rfl, rfl, rfl, rfl, rfl⟩ (fun _ _ => rfl) ?_
        (fun _ _ => Iff.rfl) id (by rw [posix]; exact nofun) (by rw [outside]; rfl) rfl
        (by rw [outside]) ?_ ?_
      · intro q others
        refine Function.update_of_ne ?_ _ _
        rintro rfl
        exact others mine
      · intro q also
        obtain rfl := inv.one_structure mine also
        have used := inv.used _ self also
        refine ⟨used.low, used.below, used.absent, used.issued, used.kernel, ?_, used.detached⟩
        rw [show (memory.setState q .Exiting).state q = .Exiting from Function.update_self _ _ _]
        exact iff_of_false nofun early
      · change Stands _ _ _ (memory.kernel self)
        rw [posix]
        exact .posix gone explicit uses clear

/-- A new thread starts. -/
theorem start_thread (inv : Inv nodes memory places) {p : Nat} (starting : places self = .starting)
    (created : memory.kernel self = .created p) :
    Inv nodes (((memory.setState p .Running).unlockState p).setKernel self (.posix p))
      (Function.update places self .outside) := by
  have stands := inv.stands self
  rw [starting, created] at stands
  cases stands with
  | created mine early =>
      have posix : (((memory.setState p .Running).unlockState p).setKernel self
          (.posix p)).kernel self = .posix p := Function.update_self _ _ _
      refine inv.turn ⟨rfl, rfl, rfl, rfl, rfl, rfl, rfl, rfl, rfl, rfl⟩
        (fun other differ => Function.update_of_ne differ _ _) ?_
        (fun _ _ => Iff.rfl) id (by rw [created]; exact nofun) (by rw [starting]; rfl) rfl
        (by rw [starting]; rfl) ?_ ?_
      · intro q others
        refine Function.update_of_ne ?_ _ _
        rintro rfl
        exact others mine
      · intro q also
        obtain rfl := inv.one_structure mine also
        have used := inv.used _ self also
        refine ⟨used.low, used.below, used.absent, used.issued, .inr (.inl posix), ?_,
          used.detached⟩
        have running : (((memory.setState q .Running).unlockState q).setKernel self
            (.posix q)).state q = .Running := Function.update_self _ _ _
        rw [running]
        exact iff_of_false nofun early
      · rw [posix]
        exact .posix (iff_of_false nofun early) rfl (fun _ => mine) nofun

/-- A thread comes to its last state. -/
theorem last_state (inv : Inv nodes memory places) {p : Nat} (exiting : places self = .exiting)
    (posix : memory.kernel self = .posix p) :
    Inv nodes { (memory.setState p .Last).unlockState p with last := memory.last ++ [self] }
      (Function.update places self .cleaning) := by
  have stands := inv.stands self
  rw [exiting, posix] at stands
  cases stands with
  | posix _ _ uses _ =>
      have mine := uses nofun
      have added : self ∈ memory.last ++ [self] :=
        List.mem_append_right _ (List.mem_singleton.mpr rfl)
      refine inv.turn ⟨rfl, rfl, rfl, rfl, rfl, rfl, rfl, rfl, rfl, rfl⟩ (fun _ _ => rfl) ?_ ?_
        (List.mem_append_left _) (by rw [posix]; exact nofun) (by rw [exiting]; rfl) rfl
        (by rw [exiting]; rfl) ?_ ?_
      · intro q others
        refine Function.update_of_ne ?_ _ _
        rintro rfl
        exact others mine
      · intro other differ
        change other ∈ memory.last ++ [self] ↔ other ∈ memory.last
        rw [List.mem_append, List.mem_singleton]
        exact or_iff_left differ
      · intro q also
        obtain rfl := inv.one_structure mine also
        have used := inv.used _ self also
        refine ⟨used.low, used.below, used.absent, used.issued, .inr (.inl posix), ?_,
          used.detached⟩
        exact iff_of_true (Function.update_self _ _ _) added
      · change Stands _ _ _ (memory.kernel self)
        rw [posix]
        exact .posix (iff_of_true rfl added) rfl (fun _ => mine) nofun

/-- A thread that can be joined keeps its structure when it ends. -/
theorem finish (inv : Inv nodes memory places) {p : Nat} (cleaning : places self = .cleaning)
    (posix : memory.kernel self = .posix p) (joinable : memory.detachState p = false) :
    Inv nodes (memory.setKernel self .ended) (Function.update places self .outside) := by
  have stands := inv.stands self
  rw [cleaning, posix] at stands
  have ended : (memory.setKernel self .ended).kernel self = .ended := Function.update_self _ _ _
  cases stands with
  | posix gone _ uses _ =>
      have mine := uses nofun
      refine inv.turn ⟨rfl, rfl, rfl, rfl, rfl, rfl, rfl, rfl, rfl, rfl⟩
        (fun other differ => Function.update_of_ne differ _ _) (fun _ _ => rfl)
        (fun _ _ => Iff.rfl) id (by rw [posix]; exact nofun) (by rw [cleaning]; rfl) rfl
        (by rw [cleaning]; rfl) ?_ ?_
      · intro q also
        obtain rfl := inv.one_structure mine also
        have used := inv.used _ self also
        exact ⟨used.low, used.below, used.absent, used.issued,
          .inr (.inr ⟨ended, gone.mp rfl, joinable⟩), used.last, used.detached⟩
      · rw [ended]
        exact .ended rfl rfl

/-- A thread ends after its structure went back to the queue. -/
theorem clear (inv : Inv nodes memory places) (clearing : places self = .clearing) :
    Inv nodes (memory.setKernel self .ended) (Function.update places self .outside) := by
  have stands := inv.stands self
  rw [clearing] at stands
  have ended : (memory.setKernel self .ended).kernel self = .ended := Function.update_self _ _ _
  cases kernel : memory.kernel self with
  | posix p =>
      rw [kernel] at stands
      cases stands with
      | posix _ _ _ nothing =>
          refine inv.turn ⟨rfl, rfl, rfl, rfl, rfl, rfl, rfl, rfl, rfl, rfl⟩
            (fun other differ => Function.update_of_ne differ _ _) (fun _ _ => rfl)
            (fun _ _ => Iff.rfl) id (by rw [kernel]; exact nofun) (by rw [clearing]; rfl) rfl
            (by rw [clearing]; rfl) ?_ ?_
          · exact fun p uses => absurd uses (nothing rfl p)
          · rw [ended]
            exact .ended rfl rfl
  | unborn | created _ | win32 | ended =>
      rw [kernel] at stands
      cases stands
      contradiction

/-- The first structure of the queue is taken. -/
theorem pop (inv : Inv nodes memory places) {origin : Origin} {p : Nat} {reuse : LinkedQueue Nat}
    (popping : places self = .popping origin)
    (popped : memory.reuse.pop PTW32_THREAD_REUSE_EMPTY 0 = some (p, reuse)) :
    ∃ others, Inv others { memory.unlock with reuse := reuse, popped := memory.popped ++ [p] }
      (Function.update places self (.initialising origin (memory.ptHandle p))) := by
  obtain ⟨others, rfl, queue⟩ := inv.queue.pop popped
  obtain ⟨low, below, nobody, begun⟩ := inv.inside p (List.mem_cons_self ..)
  have left : p ∉ others := (List.nodup_cons.mp inv.queue.nodup).1
  have makes : role (.initialising origin (memory.ptHandle p)) =
      some (.creates none, memory.ptHandle p) := rfl
  have own : implicit (.initialising origin (memory.ptHandle p)) = true →
      memory.kernel self = .win32 := by
    intro made
    apply inv.kernel_of_implicit
    rw [popping]
    cases origin with
    | create detached => exact absurd made nofun
    | implicit join => rfl
  refine ⟨others, inv.shape makes ⟨rfl, rfl, rfl, rfl, rfl⟩
    (fun _ _ => ⟨rfl, rfl, rfl, rfl⟩) nobody nobody (.inl rfl) le_rfl
    (fun _ => List.mem_cons_of_mem p) left queue ?_ ?_ ?_ ?_ ?_ ?_⟩
  · change memory.pushed.map Prod.fst = (memory.popped ++ [p]) ++ others
    rw [inv.order, List.append_assoc]
    rfl
  · refine owner_release inv.locked ?_ nofun
    rw [popping]
    rfl
  · intro other _ second also has
    cases inv.claims other _ also has with
    | creates _ _ absent =>
        rintro rfl
        exact absent (List.mem_cons_self ..)
  · intro ended also
    rw [popping]
    exact nofun
  · exact .creates low below left nobody begun rfl nofun
  · have stands := inv.stands self
    rw [popping] at stands
    have walked : Stands memory (.initialising origin (memory.ptHandle p)) self
        (memory.kernel self) := stands.move rfl own nofun nofun
    exact walked.congr (fun _ => id) Iff.rfl fun _ => Iff.rfl

/-- A new structure is allocated. -/
theorem calloc (inv : Inv nodes memory places) {origin : Origin}
    (allocating : places self = .allocating origin) :
    Inv nodes memory.calloc
      (Function.update places self (.initialising origin ⟨memory.brk, 0⟩)) := by
  have nobody : memory.threadH memory.brk = none := by
    cases uses : memory.threadH memory.brk with
    | none => rfl
    | some user => exact absurd (inv.used _ user uses).below (lt_irrefl _)
  have absent : memory.brk ∉ nodes := fun present =>
    lt_irrefl _ (inv.inside _ present).2.1
  have wiped : memory.calloc.threadH memory.brk = none := Function.update_self _ _ _
  have makes : role (.initialising origin ⟨memory.brk, 0⟩) =
      some (.creates none, ⟨memory.brk, 0⟩) := rfl
  have own : implicit (.initialising origin ⟨memory.brk, 0⟩) = true →
      memory.kernel self = .win32 := by
    intro made
    apply inv.kernel_of_implicit
    rw [allocating]
    cases origin with
    | create detached => exact absurd made nofun
    | implicit join => rfl
  refine inv.shape makes ⟨rfl, rfl, rfl, rfl, rfl⟩ ?_
    nobody wiped (.inr le_rfl) (Nat.le_succ _) (fun _ => id) absent inv.queue inv.order ?_ ?_ ?_ ?_ ?_
  · exact fun p differ => ⟨Function.update_of_ne differ _ _, Function.update_of_ne differ _ _,
      Function.update_of_ne differ _ _, Function.update_of_ne differ _ _⟩
  · exact owner_keep inv.locked (locks_congr (by rw [allocating]; rfl))
  · intro other _ second also has
    cases inv.claims other _ also has with
    | creates _ below => exact below.ne
  · intro ended also
    rw [allocating]
    exact nofun
  · refine .creates inv.start (Nat.lt_succ_self _) absent wiped ?_ ?_ nofun
    · rw [show memory.calloc.state memory.brk = .Initial from Function.update_self _ _ _]
      exact nofun
    · exact (Function.update_self memory.brk 0 memory.x).symm
  · have stands := inv.stands self
    rw [allocating] at stands
    have walked : Stands memory (.initialising origin ⟨memory.brk, 0⟩) self (memory.kernel self) :=
      stands.move rfl own nofun nofun
    refine walked.congr (fun _ => id) Iff.rfl fun p => ?_
    by_cases same : p = memory.brk
    · rw [same, nobody, wiped]
    · rw [show memory.calloc.threadH p = memory.threadH p from Function.update_of_ne same _ _]

/-- The fields of a structure that is being made are set. -/
theorem prepare (inv : Inv nodes memory places) {chosen choice : Option Bool} {thread : PthreadT}
    (makes : role (places self) = some (.creates chosen, thread))
    (still : role place = some (.creates choice, thread))
    (same : next.reuseLock = memory.reuseLock ∧ next.reuse = memory.reuse ∧ next.brk = memory.brk ∧
      next.x = memory.x ∧ next.threadH = memory.threadH ∧ next.kernel = memory.kernel ∧
        next.issued = memory.issued ∧ next.released = memory.released ∧ next.last = memory.last ∧
          next.pushed = memory.pushed ∧ next.popped = memory.popped)
    (elsewhere : ∀ p, p ≠ thread.p →
      next.state p = memory.state p ∧ next.detachState p = memory.detachState p)
    (begun : memory.state thread.p ≠ .Last → next.state thread.p ≠ .Last)
    (choose : ∀ detached, choice = some detached → next.detachState thread.p = detached)
    (locked : holds place = holds (places self))
    (own : implicit place = true → implicit (places self) = true) :
    Inv nodes next (Function.update places self place) := by
  obtain ⟨reuseLock, reuse, brk, x, threadH, kernel, issued, released, last, pushed, popped⟩ := same
  cases inv.claims self _ thread makes with
  | creates low below absent nobody old counter =>
      have wiped : next.threadH thread.p = none := (congrFun threadH _).trans nobody
      refine inv.shape still ⟨kernel, issued, released, last, pushed⟩ ?_ nobody wiped
        (.inl (congrFun x _)) brk.ge (fun _ => id) absent (by rw [reuse]; exact inv.queue)
        (by rw [pushed, popped]; exact inv.order) ?_ ?_ ?_ ?_ ?_
      · exact fun p differ => ⟨congrFun x p, congrFun threadH p, elsewhere p differ⟩
      · rw [reuseLock]
        exact owner_keep inv.locked (locks_congr locked)
      · intro other differ second also has equal
        exact differ (inv.creator other self _ _ also thread has makes equal)
      · intro ended also has
        exact absurd (makes.symm.trans has) nofun
      · exact .creates low (below.trans_le brk.ge) absent wiped (begun old)
          (counter.trans (congrFun x _).symm) choose
      · have before := early_of_creates makes
        have after := early_of_creates still
        rw [kernel]
        refine ((inv.stands self).move (after.trans before.symm)
          (fun made => inv.kernel_of_implicit (own made)) (ne_clearing before)
            (ne_clearing after)).congr (by rw [issued]; exact fun _ => id) (by rw [last])
              (by rw [threadH]; exact fun _ => Iff.rfl)

/-- No thread could be made for a structure. -/
theorem give_up (inv : Inv nodes memory places) {chosen : Option Bool} {thread : PthreadT}
    {result : Result} (makes : role (places self) = some (.creates chosen, thread))
    (outside : holds (places self) = false) :
    Inv nodes memory (Function.update places self (.destroying thread (.failed result))) := by
  have still : role (.destroying thread (.failed result)) = some (.creates none, thread) := rfl
  exact inv.prepare makes still ⟨rfl, rfl, rfl, rfl, rfl, rfl, rfl, rfl, rfl, rfl, rfl⟩
    (fun _ _ => ⟨rfl, rfl⟩) id nofun (by rw [outside]; rfl) nofun

/-- A thread is created for a structure. -/
theorem spawn (inv : Inv nodes memory places) {detached : Bool} {thread : PthreadT}
    {threadH : Thread} (spawning : places self = .spawning (.create detached) thread)
    (unborn : memory.kernel threadH = .unborn) :
    Inv nodes (memory.issue threadH (.created thread.p) thread detached)
      (Function.update places self (.returned .success)) := by
  have makes : role (places self) = some (.creates (some detached), thread) := by rw [spawning]; rfl
  have nobody : memory.threadH thread.p = none := by
    cases inv.claims self _ thread makes with
    | creates _ _ _ nobody => exact nobody
  have uses : (memory.issue threadH (.created thread.p) thread detached).threadH thread.p =
      some threadH := Function.update_self _ _ _
  have born := inv.stands threadH
  rw [unborn] at born
  cases born with
  | unborn fresh early late_threadH explicit =>
      refine inv.issue makes rfl (by rw [spawning]; rfl) fresh early (.inl unborn) (.inl rfl) ?_
      intro one either
      by_cases new : one = threadH
      · subst new
        rw [show (memory.issue one (.created thread.p) thread detached).kernel one =
          .created thread.p from Function.update_self _ _ _]
        by_cases same : one = self
        · subst same
          rw [Function.update_self]
          exact .created uses early rfl rfl
        · rw [Function.update_of_ne same]
          exact .created uses early late_threadH explicit
      · obtain rfl := either.resolve_right new
        have stands := inv.stands one
        rw [spawning] at stands
        have walked : Stands memory (.returned .success) one (memory.kernel one) :=
          stands.move rfl nofun nofun nofun
        rw [Function.update_self, show (memory.issue threadH (.created thread.p) thread
          detached).kernel one = memory.kernel one from Function.update_of_ne new _ _]
        refine walked.congr ?_ Iff.rfl fun p => ?_
        · intro also entry
          refine (List.mem_append.mp entry).resolve_right fun added => new ?_
          exact (Prod.mk.inj (List.mem_singleton.mp added)).1
        · by_cases same : p = thread.p
          · rw [same, nobody, uses]
            exact iff_of_false nofun fun mine => new (Option.some.inj mine).symm
          · rw [show (memory.issue threadH (.created thread.p) thread detached).threadH p =
              memory.threadH p from Function.update_of_ne same _ _]

/-- A Win32 thread gets its own structure. -/
theorem adopt (inv : Inv nodes memory places) {join : Option PthreadT} {thread : PthreadT}
    (spawning : places self = .spawning (.implicit join) thread) :
    Inv nodes (memory.issue self (.posix thread.p) thread true)
      (Function.update places self (Origin.next (.implicit join))) := by
  have makes : role (places self) = some (.creates (some true), thread) := by rw [spawning]; rfl
  have made : implicit (places self) = true := by rw [spawning]; rfl
  have win32 := inv.kernel_of_implicit made
  have uses : (memory.issue self (.posix thread.p) thread true).threadH thread.p = some self :=
    Function.update_self _ _ _
  have stands := inv.stands self
  rw [win32] at stands
  cases stands with
  | win32 fresh early =>
      have still : role (Origin.next (.implicit join)) = none := by cases join <;> rfl
      have outside : holds (Origin.next (.implicit join)) = false := by cases join <;> rfl
      have explicit : implicit (Origin.next (.implicit join)) = false := by cases join <;> rfl
      have before : late (Origin.next (.implicit join)) = false := by cases join <;> rfl
      refine inv.issue makes still (by rw [outside, spawning]; rfl) fresh early (.inr win32)
        (.inr rfl) ?_
      intro one either
      obtain rfl : one = self := either.elim id id
      rw [Function.update_self, show (memory.issue one (.posix thread.p) thread true).kernel one =
        .posix thread.p from Function.update_self _ _ _]
      refine .posix (iff_of_false ?_ early) explicit (fun _ => uses) fun clearing =>
        absurd clearing (ne_clearing before)
      rw [before]
      exact nofun

omit [DecidableEq Thread] in
/-- An identifier that is not stale belongs to the thread it was handed out for. -/
theorem user_of_issued (inv : Inv nodes memory places) {thread : PthreadT} {user : Thread}
    (entry : (user, thread) ∈ memory.issued) (valid : ¬ memory.Stale thread) :
    memory.threadH thread.p = some user ∧ thread.x = memory.x thread.p := by
  rw [Memory.Stale, not_or, not_not] at valid
  obtain ⟨-, -, ⟨counts, uses⟩ | ⟨older, -⟩⟩ := inv.ledger.current user thread entry
  · exact ⟨uses, counts⟩
  · exact absurd valid.2 older.ne

/-- A thread is found that can be joined or detached. -/
theorem check (inv : Inv nodes memory places) {thread : PthreadT} {user : Thread}
    (detaching : places self = .detaching thread) (valid : ¬ memory.Stale thread)
    (joinable : memory.detachState thread.p = false) (entry : (user, thread) ∈ memory.issued)
    (alone : ∀ other ended also, role (places other) = some (.reclaims ended, also) →
      thread.p ≠ also.p) :
    Inv nodes memory (Function.update places self (.locking thread)) := by
  obtain ⟨uses, counts⟩ := inv.user_of_issued entry valid
  have stands := inv.stands self
  rw [detaching] at stands
  refine inv.walk (owner_keep inv.locked (locks_congr (by rw [detaching]; rfl))) ?_ nofun nofun ?_ ?_
    (stands.move rfl nofun nofun nofun)
  · intro claimed also found
    obtain ⟨rfl, rfl⟩ := Prod.mk.inj (Option.some.inj found)
    exact .checks uses counts joinable
  · intro ended also found
    rw [detaching] at found
    exact absurd found nofun
  · intro also found other ended third had
    obtain ⟨-, rfl⟩ := Prod.mk.inj (Option.some.inj found)
    exact alone other ended third had

/-- What a thread that destroys a structure is afterwards. -/
theorem stands_push (inv : Inv nodes memory places) {thread : PthreadT} {reason : Reason}
    (pushing : places self = .pushing thread reason) :
    Stands (memory.ptw32_threadReusePush thread.p) reason.next self (memory.kernel self) := by
  have stands := inv.stands self
  rw [pushing] at stands
  have users : ∀ p, p ≠ thread.p → (memory.ptw32_threadReusePush thread.p).threadH p =
      memory.threadH p := fun p differ => Function.update_of_ne differ _ _
  have wiped : (memory.ptw32_threadReusePush thread.p).threadH thread.p = none :=
    Function.update_self _ _ _
  cases reason with
  | exited =>
      have claim := inv.claims self .dies thread (by rw [pushing]; rfl)
      cases claim with
      | dies mine posix =>
          rw [posix] at stands ⊢
          cases stands with
          | posix gone =>
              refine .posix gone rfl nofun fun _ q also => ?_
              by_cases same : q = thread.p
              · rw [same, wiped] at also
                exact absurd also nofun
              · rw [users q same] at also
                exact same (inv.one_structure mine also)
  | detached =>
      have claim := inv.claims self (.reclaims true) thread (by rw [pushing]; rfl)
      cases claim with
      | reclaims uses _ _ _ _ ended =>
          have walked : Stands memory (.returned .success) self (memory.kernel self) :=
            stands.move rfl nofun nofun nofun
          by_cases mine : memory.threadH thread.p = some self
          · obtain rfl := Option.some.inj (uses.symm.trans mine)
            rw [ended rfl]
            exact .ended rfl rfl
          · refine walked.congr (fun _ => id) Iff.rfl fun p => ?_
            by_cases same : p = thread.p
            · rw [same, wiped]
              exact iff_of_false mine nofun
            · rw [users p same]
  | failed result =>
      have claim := inv.claims self (.creates none) thread (by rw [pushing]; rfl)
      cases claim with
      | creates _ _ _ nobody =>
          have walked : Stands memory (.returned result) self (memory.kernel self) :=
            stands.move rfl nofun nofun nofun
          refine walked.congr (fun _ => id) Iff.rfl fun p => ?_
          by_cases same : p = thread.p
          · rw [same, wiped, nobody]
          · rw [users p same]

omit [DecidableEq Thread] in
theorem claim_here (inv : Inv nodes memory places) {claimed : Role} {thread : PthreadT}
    (here : places self = place) (has : role place = some (claimed, thread)) :
    Claim memory nodes self claimed thread :=
  inv.claims self claimed thread (by rw [here]; exact has)

/-- Every move keeps the invariant. -/
theorem moves (inv : Inv nodes memory places) (moves : Moves self memory (places self) next place)
    (known : ∀ thread, places self = .detaching thread → ¬ memory.Stale thread →
      (∃ user, (user, thread) ∈ memory.issued) ∧
        ∀ other ended also, role (places other) = some (.reclaims ended, also) →
          thread.p ≠ also.p)
    (room : ∀ thread reason, places self = .pushing thread reason →
      memory.x thread.p + 1 < COUNTER_VALUES) :
    ∃ others, Inv others next (Function.update places self place) := by
  have stands := inv.stands self
  generalize here : places self = before at moves
  rw [here] at stands
  cases moves with
  | attach unborn =>
      rw [unborn] at stands
      cases stands with
      | unborn fresh early =>
          exact ⟨nodes, inv.anonymous here (by rw [unborn]; exact nofun) fresh
            (.win32 fresh early rfl)⟩
  | leave win32 =>
      rw [win32] at stands
      cases stands with
      | win32 fresh =>
          exact ⟨nodes, inv.anonymous here (by rw [win32]; exact nofun) fresh (.ended rfl rfl)⟩
  | lockState _ goes =>
      have still : role place = none ∧ late place = false ∧ holds place = false ∧
          implicit place = false := by
        rcases goes with rfl | rfl <;> exact ⟨rfl, rfl, rfl, rfl⟩
      obtain ⟨nothing, early, outside, explicit⟩ := still
      refine ⟨nodes, inv.walk (owner_keep inv.locked (locks_congr ?_)) ?_ ?_ ?_ ?_ ?_ ?_⟩
      · rw [here, outside]
        rfl
      · exact fun claimed thread found => absurd (nothing.symm.trans found) nofun
      · exact fun chosen thread found => absurd (nothing.symm.trans found) nofun
      · exact fun ended thread found => absurd (nothing.symm.trans found) nofun
      · rw [here]
        exact nofun
      · exact fun thread found => absurd (nothing.symm.trans found) nofun
      · exact stands.move early (by rw [explicit]; exact nofun) nofun (ne_clearing early)
  | throw posix => exact ⟨nodes, inv.throw here posix⟩
  | lock free _ idle after inside own =>
      refine ⟨nodes, inv.lock free inside (by rw [here, idle.1, after.1]) ?_⟩
      exact stands.move (after.2.trans idle.2.symm) own (ne_clearing idle.2) (ne_clearing after.2)
  | unlock inside idle after _ outside same =>
      refine ⟨nodes, inv.unlock (by rw [here]; exact inside) outside
        (by rw [here, idle.1, after.1]) ?_⟩
      refine stands.move (after.2.trans idle.2.symm) (fun made => ?_) (ne_clearing idle.2)
        (ne_clearing after.2)
      exact inv.kernel_of_implicit (by rw [here, ← same]; exact made)
  | walk idle after _ locks outside explicit =>
      refine ⟨nodes, inv.walk_still (owner_keep inv.locked (locks_congr ?_))
        (by rw [here, idle.1, after.1]) ?_⟩
      · rw [here, locks, outside]
      exact stands.move (after.2.trans idle.2.symm) (by rw [explicit]; exact nofun)
        (ne_clearing idle.2) (ne_clearing after.2)
  | start created => exact ⟨nodes, inv.start_thread here created⟩
  | pop popped => exact inv.pop here popped
  | calloc => exact ⟨nodes, inv.calloc here⟩
  | @initialise origin thread _ goes =>
      have makes : role (places self) = some (.creates none, thread) := by rw [here]; rfl
      have elsewhere : ∀ p, p ≠ thread.p → (memory.ptw32_new thread.p).state p = memory.state p ∧
          (memory.ptw32_new thread.p).detachState p = memory.detachState p :=
        fun p differ => ⟨rfl, Function.update_of_ne differ _ _⟩
      have still : role place = some (.creates none, thread) ∧ holds place = false ∧
          (implicit place = true → implicit (.initialising origin thread) = true) := by
        rcases goes with rfl | ⟨result, rfl⟩
        · cases origin <;> exact ⟨rfl, rfl, id⟩
        · exact ⟨rfl, rfl, nofun⟩
      obtain ⟨kept, outside, own⟩ := still
      exact ⟨nodes, inv.prepare makes kept
        ⟨rfl, rfl, rfl, rfl, rfl, rfl, rfl, rfl, rfl, rfl, rfl⟩ elsewhere id nofun
        (by rw [here, outside]; rfl) (by rw [here]; exact own)⟩
  | @attributes detached thread =>
      have makes : role (places self) = some (.creates none, thread) := by rw [here]; rfl
      have still : role (.spawning (.create detached) thread) =
          some (.creates (some detached), thread) := rfl
      refine ⟨nodes, inv.prepare makes still
        ⟨rfl, rfl, rfl, rfl, rfl, rfl, rfl, rfl, rfl, rfl, rfl⟩ ?_ ?_ ?_ (by rw [here]; rfl) nofun⟩
      · exact fun p differ => ⟨Function.update_of_ne differ _ _, Function.update_of_ne differ _ _⟩
      · intro _
        rw [show ((memory.setDetachState thread.p detached).setState thread.p .Initial).state
          thread.p = .Initial from Function.update_self _ _ _]
        exact nofun
      · rintro _ ⟨⟩
        exact Function.update_self _ _ _
  | @attributesImplicit join thread =>
      have makes : role (places self) = some (.creates none, thread) := by rw [here]; rfl
      have still : role (.spawning (.implicit join) thread) =
          some (.creates (some true), thread) := rfl
      refine ⟨nodes, inv.prepare makes still
        ⟨rfl, rfl, rfl, rfl, rfl, rfl, rfl, rfl, rfl, rfl, rfl⟩ ?_ id ?_ (by rw [here]; rfl)
        (by rw [here]; exact id)⟩
      · exact fun p differ => ⟨rfl, Function.update_of_ne differ _ _⟩
      · rintro _ ⟨⟩
        exact Function.update_self _ _ _
  | fail makes outside =>
      exact ⟨nodes, inv.give_up (by rw [here]; exact makes) (by rw [here]; exact outside)⟩
  | spawn unborn => exact ⟨nodes, inv.spawn here unborn⟩
  | spawnImplicit => exact ⟨nodes, inv.adopt here⟩
  | last posix => exact ⟨nodes, inv.last_state here posix⟩
  | @die p posix detached =>
      rw [posix] at stands
      cases stands with
      | posix gone explicit uses clear =>
          have mine := uses nofun
          refine ⟨nodes, inv.walk (owner_keep inv.locked (locks_congr (by rw [here]; rfl))) ?_ nofun
            nofun ?_ nofun ?_⟩
          · intro claimed thread found
            obtain ⟨rfl, rfl⟩ := Prod.mk.inj (Option.some.inj found)
            exact .dies mine posix rfl detached
          · rw [here]
            exact nofun
          · rw [posix]
            exact .posix gone rfl (fun _ => mine) nofun
  | finish posix joinable => exact ⟨nodes, inv.finish here posix joinable⟩
  | clear => exact ⟨nodes, inv.clear here⟩
  | check valid joinable =>
      obtain ⟨⟨user, entry⟩, alone⟩ := known _ here valid
      exact ⟨nodes, inv.check here valid joinable entry alone⟩
  | lockDecide =>
      refine ⟨nodes, inv.walk (owner_keep inv.locked (locks_congr (by rw [here]; rfl))) ?_ nofun
        nofun ?_ ?_ (stands.move rfl nofun nofun nofun)⟩
      · exact fun claimed also found => inv.claim_here here found
      · rw [here]
        exact nofun
      · intro also found other ended third had
        exact inv.unclaimed self other ended also third (by rw [here]; exact found) had
  | detach running =>
      exact ⟨nodes, inv.detach (by rw [here]; rfl) running rfl rfl (stands.move rfl nofun nofun nofun)⟩
  | @reclaim thread destroyIt gone chosen =>
      have claim : Claim memory nodes self .checks thread := inv.claim_here here rfl
      cases claim with
      | checks _ _ joinable =>
          obtain rfl : destroyIt = true := by rw [chosen, joinable]; rfl
          exact ⟨nodes, inv.reclaim (by rw [here]; rfl) gone rfl rfl
            (stands.move rfl nofun nofun nofun)⟩
  | releaseWait =>
      exact ⟨nodes, inv.unlock (by rw [here]; rfl) rfl (by rw [here]; rfl)
        (stands.move rfl nofun nofun nofun)⟩
  | @wait thread done =>
      have claim : Claim memory nodes self (.reclaims false) thread := inv.claim_here here rfl
      refine ⟨nodes, inv.walk (owner_keep inv.locked (locks_congr (by rw [here]; rfl))) ?_ nofun ?_
        ?_ nofun (stands.move rfl nofun nofun nofun)⟩
      · intro claimed also found
        obtain ⟨rfl, rfl⟩ := Prod.mk.inj (Option.some.inj found)
        cases claim with
        | reclaims uses gone free counter joinable =>
            exact .reclaims uses gone free counter joinable fun _ => done _ uses
      · intro ended also found
        obtain ⟨-, rfl⟩ := Prod.mk.inj (Option.some.inj found)
        exact ⟨false, by rw [here]; rfl⟩
      · intro ended also found
        rw [here] at found
        obtain ⟨-, rfl⟩ := Prod.mk.inj (Option.some.inj found)
        exact ⟨true, rfl⟩
  | @lockPush thread reason free =>
      refine ⟨nodes, inv.lock free rfl (by rw [here]; cases reason <;> rfl) ?_⟩
      exact stands.move (by cases reason <;> rfl) nofun nofun nofun
  | @push thread reason =>
      have locks : holds (places self) = true := by rw [here]; rfl
      have after := inv.stands_push here
      refine ⟨nodes ++ [thread.p], ?_⟩
      cases reason with
      | exited =>
          have has : role (places self) = some (.dies, thread) := by rw [here]; rfl
          exact inv.push has (.inr (.inl rfl)) (fun _ => by rw [here]; rfl) (room _ _ here) locks
            rfl rfl after
      | detached =>
          have has : role (places self) = some (.reclaims true, thread) := by rw [here]; rfl
          exact inv.push has (.inr (.inr rfl)) nofun (room _ _ here) locks rfl rfl after
      | failed result =>
          have has : role (places self) = some (.creates none, thread) := by rw [here]; rfl
          exact inv.push has (.inl ⟨none, rfl⟩) nofun (room _ _ here) locks rfl rfl after

end Inv

/-- Threads are detached and joined by the identifiers that they were given, no thread is detached
while another one reclaims it, and no counter comes round. -/
def Allowed (memory : Memory Thread) (places : Thread → Place) : Place → Prop
  | .detaching thread => ¬ memory.Stale thread → (∃ user, (user, thread) ∈ memory.issued) ∧
      ∀ other ended also, role (places other) = some (.reclaims ended, also) → thread.p ≠ also.p
  | .pushing thread _ => memory.x thread.p + 1 < COUNTER_VALUES
  | _ => True

def Good (config : Configuration Thread (Memory Thread) Place) (action : Thread × Label Thread) :
    Prop := Allowed config.memory config.places (config.places action.1)

theorem inv_start : Inv [] (program Thread).memory fun _ : Thread => (program Thread).entry where
  locked _ := iff_of_false nofun nofun
  queue := ⟨rfl, rfl, List.nodup_nil⟩
  inside := nofun
  start := le_rfl
  order := rfl
  claims := nofun
  creator := nofun
  reclaimer := nofun
  unclaimed := nofun
  used := nofun
  stands _ := .unborn nofun nofun rfl rfl
  ledger := ⟨List.nodup_nil, List.nodup_nil, nofun, List.nodup_nil, nofun, nofun⟩
  released := nofun

theorem inv_of_reachable {config : Configuration Thread (Memory Thread) Place}
    (reached : (program Thread).system.Reachable Good config) :
    ∃ nodes, Inv nodes config.memory config.places := by
  apply Program.invariant reached (fun memory places => ∃ nodes, Inv nodes memory places)
    ⟨[], inv_start⟩
  rintro memory places thread label next place ⟨nodes, inv⟩ good taken
  have allowed : Allowed memory places (places thread) := good
  apply inv.moves (moves_of_step taken)
  · intro identifier here
    rw [here] at allowed
    exact allowed
  · intro identifier reason here
    rw [here] at allowed
    exact allowed

/-- The threads that a structure was reclaimed from. -/
def Memory.reclaimed (memory : Memory Thread) : List Thread := memory.pushed.filterMap Prod.snd

/-- Identifiers are never handed out twice, a structure is reclaimed from its thread once, and only
from a thread that has come to its end and was detached or joined. Its identifier is stale from then
on. The queue gives the structures back in the order they came in, and never while they are in use. -/
structure Safe (config : Configuration Thread (Memory Thread) Place) : Prop where
  identifiers : (config.memory.issued.map Prod.fst).Nodup ∧
    (config.memory.issued.map Prod.snd).Nodup
  once : config.memory.reclaimed.Nodup
  justified : ∀ user ∈ config.memory.reclaimed,
    user ∈ config.memory.last ∧ user ∈ config.memory.released
  stale : ∀ user thread, (user, thread) ∈ config.memory.issued →
    (config.memory.Stale thread ↔ user ∈ config.memory.reclaimed)
  queued : ∃ nodes, config.memory.reuse.Holds PTW32_THREAD_REUSE_EMPTY nodes ∧
    config.memory.pushed.map Prod.fst = config.memory.popped ++ nodes ∧
      ∀ p ∈ nodes, config.memory.threadH p = none
  complete : (∀ thread, config.places thread = .outside) → ∀ user,
    user ∈ config.memory.last → user ∈ config.memory.released → user ∈ config.memory.reclaimed

/-- Structures are reclaimed and reused safely. -/
theorem reuse_safe {config : Configuration Thread (Memory Thread) Place}
    (reached : (program Thread).system.Reachable Good config) : Safe config := by
  obtain ⟨nodes, inv⟩ := inv_of_reachable reached
  have ledger := inv.ledger
  refine ⟨⟨ledger.threads, ledger.identifiers⟩, ledger.once, ?_, ?_, ?_, ?_⟩
  · intro user found
    obtain ⟨gone, free, -⟩ := ledger.justified user found
    exact ⟨gone, free⟩
  · intro user thread entry
    obtain ⟨low, -, held⟩ := ledger.current user thread entry
    constructor
    · intro stale
      rcases held with ⟨counts, -⟩ | ⟨-, found⟩
      · rcases stale with null | differ
        · omega
        · exact absurd counts differ
      · exact found
    · intro found
      obtain ⟨-, -, also, again, older⟩ := ledger.justified user found
      obtain rfl := ledger.unique entry again
      exact .inr older.ne
  · exact ⟨nodes, inv.queue, inv.order, fun p present => (inv.inside p present).2.2.1⟩
  · intro outside user gone free
    obtain ⟨thread, entry⟩ := ledger.freed user free
    obtain ⟨-, -, ⟨-, uses⟩ | ⟨-, found⟩⟩ := ledger.current user thread entry
    · have used := inv.used _ user uses
      have joinable : config.memory.detachState thread.p = false := by
        have stands := inv.stands user
        rw [outside user] at stands
        rcases used.kernel with created | posix | ⟨-, -, joinable⟩
        · rw [created] at stands
          cases stands with
          | created _ early => exact absurd gone early
        · rw [posix] at stands
          cases stands with
          | posix late => exact absurd (late.mpr gone) nofun
        · exact joinable
      rcases inv.released user free _ uses with detached | ⟨one, ended, has⟩
      · exact absurd (joinable.symm.trans detached) nofun
      · rw [outside one] at has
        exact absurd has nofun
    · exact found

/-- This tells whether a thread is allowed to go on. -/
def allowed (memory : Memory Bool) (places : Bool → Place) : Place → Bool
  | .detaching thread => memory.issued.any (fun entry => entry.2 = thread) &&
      [false, true].all fun other => match role (places other) with
        | some (.reclaims _, also) => thread.p ≠ also.p
        | _ => true
  | .pushing thread _ => memory.x thread.p + 1 < COUNTER_VALUES
  | _ => true

theorem allowed_sound {memory : Memory Bool} {places : Bool → Place} {place : Place}
    (passed : allowed memory places place = true) : Allowed memory places place := by
  cases place with
  | detaching thread =>
      obtain ⟨known, apart⟩ := Bool.and_eq_true_iff.mp passed
      rw [List.any_eq_true] at known
      rw [List.all_eq_true] at apart
      obtain ⟨⟨user, also⟩, entry, same⟩ := known
      obtain rfl : also = thread := of_decide_eq_true same
      refine fun _ => ⟨⟨user, entry⟩, fun other ended third has => ?_⟩
      have differ := apart other (by cases other <;> decide)
      rw [has] at differ
      exact of_decide_eq_true differ
  | pushing thread reason =>
      have room : memory.x thread.p + 1 < COUNTER_VALUES := of_decide_eq_true passed
      exact room
  | _ => trivial

/-- A thread is created and joined, and the next thread gets its structure. -/
def joined : List (Bool × Label Bool) :=
  [(false, .attach), (false, .create false), (false, .go), (false, .go), (false, .go), (false, .go),
    (false, .spawn true), (false, .go), (true, .start), (true, .go), (false, .join ⟨2, 0⟩),
    (false, .go), (false, .go), (false, .go), (false, .go), (false, .go), (false, .go),
    (false, .go), (true, .exit), (true, .go), (true, .go), (false, .go), (false, .go), (false, .go),
    (false, .go), (false, .go), (false, .go), (false, .go), (false, .go), (false, .go), (false, .go),
    (false, .create true), (false, .go)]

theorem joined_safe : ∃ config, (program Bool).system.run joined = some config ∧
    config.places false = .initialising (.create true) ⟨2, 1⟩ ∧ Safe config := by
  obtain ⟨config, ran, reuses⟩ : ∃ config, (program Bool).system.run joined = some config ∧
      config.places false = .initialising (.create true) ⟨2, 1⟩ := ⟨_, rfl, rfl⟩
  refine ⟨config, ran, reuses, reuse_safe (System.reachable_of_along ?_ ran)⟩
  exact System.along_of_tested (fun _ _ => allowed_sound) (by decide)

end ThreadReuse

end CodeCollect.Pthreads
