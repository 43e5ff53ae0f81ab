import Mathlib

namespace CodeCollect.Pthreads.RelativeTime

/-- The value of this number as a signed word of 64 bits. -/
def int64 (value : Int) : Int := value.bmod (2 ^ 64)

/-- The value of this number as a `DWORD`. -/
def dword (value : Int) : Nat := (value % 2 ^ 32).toNat

/-- This is a `struct timespec`. -/
structure Timespec where
  sec : Int
  nsec : Int
  deriving DecidableEq, Repr

def NANOSEC_PER_MILLISEC : Int := 1000000

def MILLISEC_PER_SEC : Int := 1000

/-- A wait of this many milliseconds never times out. -/
def INFINITE : Nat := 0xFFFFFFFF

/-- The time in milliseconds, rounded to the nearest. -/
def Timespec.milliseconds (time : Timespec) : Int :=
  int64 (int64 (time.sec * MILLISEC_PER_SEC) +
    (time.nsec + NANOSEC_PER_MILLISEC / 2).tdiv NANOSEC_PER_MILLISEC)

/-- The clock is read as a `struct _timeb`, or as a file time where `NEED_FTIME` is defined. -/
inductive Clock where
  | timeb (time millitm : Int)
  | filetime (currSysTime : Timespec)
  deriving DecidableEq, Repr

def Clock.milliseconds : Clock → Int
  | timeb time millitm => int64 (int64 (time * MILLISEC_PER_SEC) + millitm)
  | filetime currSysTime => currSysTime.milliseconds

/-- This is `ptw32_relmillisecs`. -/
def relmillisecs (abstime : Timespec) (now : Clock) : Nat :=
  if abstime.milliseconds > now.milliseconds then
    let milliseconds := dword (int64 (abstime.milliseconds - now.milliseconds))
    -- Timeouts must be finite.
    if milliseconds = INFINITE then milliseconds - 1 else milliseconds
  else 0

/-- The time rounded to the nearest millisecond, in unbounded integers. -/
def Timespec.rounded (time : Timespec) : Int :=
  (time.sec * 1000000000 + time.nsec + 500000) / 1000000

/-- The clock in milliseconds, in unbounded integers. -/
def Clock.reading : Clock → Int
  | timeb time millitm => time * 1000 + millitm
  | filetime currSysTime =>
      currSysTime.sec * 1000 + (currSysTime.nsec + 500000).tdiv 1000000

/-- The number is a value of a signed word of 64 bits. -/
def Fits (value : Int) : Prop := -2 ^ 63 ≤ value ∧ value < 2 ^ 63

/-- The timeout for a deadline this far away: none, the distance, or the longest finite one. -/
def timeout (distance : Int) : Nat :=
  if distance ≤ 0 then 0
  else if distance < INFINITE then distance.toNat
  else INFINITE - 1

/-- The distance is below `2 ^ 32` milliseconds, or it ends on one of the two largest words. -/
def Representable (distance : Int) : Prop :=
  distance < 2 ^ 32 ∨ INFINITE - 1 ≤ dword distance

theorem int64_of_fits {value : Int} (fits : Fits value) : int64 value = value := by
  unfold Fits at fits
  unfold int64
  apply Int.bmod_eq_of_le <;> omega

theorem int64_add (left right : Int) : int64 (int64 left + right) = int64 (left + right) :=
  Int.bmod_add_bmod

theorem dword_int64 (value : Int) : dword (int64 value) = dword value := by
  have reduced : int64 value % 2 ^ 64 = value % 2 ^ 64 := Int.bmod_emod
  unfold dword
  congr 1
  omega

theorem Timespec.milliseconds_eq {time : Timespec} (nonneg : 0 ≤ time.nsec)
    (fits : Fits time.rounded) : time.milliseconds = time.rounded := by
  have whole : time.sec * MILLISEC_PER_SEC +
      (time.nsec + NANOSEC_PER_MILLISEC / 2).tdiv NANOSEC_PER_MILLISEC = time.rounded := by
    rw [Int.tdiv_eq_ediv_of_nonneg]
    · unfold Timespec.rounded NANOSEC_PER_MILLISEC MILLISEC_PER_SEC
      omega
    · unfold NANOSEC_PER_MILLISEC
      omega
  rw [Timespec.milliseconds, int64_add, whole]
  exact int64_of_fits fits

theorem Clock.milliseconds_eq {now : Clock} (fits : Fits now.reading) :
    now.milliseconds = now.reading := by
  cases now with
  | timeb time millitm => exact (int64_add _ _).trans (int64_of_fits fits)
  | filetime currSysTime => exact (int64_add _ _).trans (int64_of_fits fits)

/-- The wait is never the one that `WaitForSingleObject` takes for a wait without end. -/
theorem relmillisecs_ne_infinite (abstime : Timespec) (now : Clock) :
    relmillisecs abstime now ≠ INFINITE := by
  unfold relmillisecs INFINITE
  split
  · dsimp only
    split <;> omega
  · decide

/-- The result is the distance reduced to a word, and one less where that is `INFINITE`. -/
theorem relmillisecs_eq {abstime : Timespec} {now : Clock} {distance : Int}
    (nonneg : 0 ≤ abstime.nsec) (fits : Fits abstime.rounded) (read : Fits now.reading)
    (apart : distance = abstime.rounded - now.reading) :
    relmillisecs abstime now =
      if 0 < distance then min (dword distance) (INFINITE - 1) else 0 := by
  have bounded : dword distance < 2 ^ 32 := by
    unfold dword
    omega
  unfold relmillisecs
  rw [abstime.milliseconds_eq nonneg fits, now.milliseconds_eq read, dword_int64, ← apart]
  unfold INFINITE
  by_cases future : 0 < distance
  · rw [if_pos (by omega), if_pos future]
    dsimp only
    split <;> omega
  · rw [if_neg (by omega), if_neg future]

theorem dword_of_small {distance : Int} (positive : 0 < distance) (small : distance < 2 ^ 32) :
    (dword distance : Int) = distance := by
  unfold dword
  omega

theorem reduced_eq_timeout_iff (distance : Int) :
    (if 0 < distance then min (dword distance) (INFINITE - 1) else 0) = timeout distance ↔
      Representable distance := by
  have bounded : dword distance < 2 ^ 32 := by
    unfold dword
    omega
  unfold timeout Representable INFINITE
  by_cases past : distance ≤ 0
  · rw [if_neg (by omega), if_pos past]
    exact iff_of_true rfl (.inl (by omega))
  rw [if_pos (by omega), if_neg past]
  by_cases near : distance < 2 ^ 32
  · have kept := dword_of_small (by omega) near
    split <;> omega
  · rw [if_neg (by omega)]
    omega

theorem timeout_mono {sooner later : Int} (ordered : sooner ≤ later) :
    timeout sooner ≤ timeout later := by
  unfold timeout INFINITE
  split_ifs <;> omega

/-- At each time, the wait is finite and is the timeout that a deadline asks for exactly when the
distance is representable, and among such deadlines it never decreases. -/
theorem relmillisecs_timeout {now : Clock} (read : Fits now.reading) :
    (∀ abstime : Timespec, 0 ≤ abstime.nsec → abstime.nsec < 1000000000 → Fits abstime.rounded →
      relmillisecs abstime now ≠ INFINITE ∧
      (relmillisecs abstime now = timeout (abstime.rounded - now.reading) ↔
        Representable (abstime.rounded - now.reading))) ∧
    ∀ sooner later : Timespec, 0 ≤ sooner.nsec → Fits sooner.rounded →
      Representable (sooner.rounded - now.reading) →
      0 ≤ later.nsec → Fits later.rounded → Representable (later.rounded - now.reading) →
      sooner.rounded ≤ later.rounded → relmillisecs sooner now ≤ relmillisecs later now := by
  have exactly : ∀ abstime : Timespec, 0 ≤ abstime.nsec → Fits abstime.rounded →
      (relmillisecs abstime now = timeout (abstime.rounded - now.reading) ↔
        Representable (abstime.rounded - now.reading)) := by
    intro abstime nonneg fits
    rw [relmillisecs_eq nonneg fits read rfl]
    exact reduced_eq_timeout_iff _
  constructor
  · intro abstime nonneg _ fits
    exact ⟨relmillisecs_ne_infinite abstime now, exactly abstime nonneg fits⟩
  · intro sooner later nonneg fits representable nonneg' fits' representable' ordered
    rw [(exactly sooner nonneg fits).mpr representable,
      (exactly later nonneg' fits').mpr representable']
    apply timeout_mono
    omega

/-- From the first millisecond on, the next second is representable. -/
theorem next_second :
    Fits (Clock.reading (.timeb 0 1)) ∧
      (relmillisecs ⟨1, 0⟩ (.timeb 0 1) = timeout (Timespec.rounded ⟨1, 0⟩ - 1) ↔
        Representable (Timespec.rounded ⟨1, 0⟩ - 1)) := by
  have fits : Fits (Clock.reading (.timeb 0 1)) := ⟨by decide, by decide⟩
  exact ⟨fits, ((relmillisecs_timeout fits).1 ⟨1, 0⟩ (by decide) (by decide)
    ⟨by decide, by decide⟩).2⟩

/-- A deadline `2 ^ 32` milliseconds ahead times out at once, one a second ahead does not. -/
theorem distant_deadline :
    Fits (Timespec.rounded ⟨4294967, 296000000⟩) ∧
      relmillisecs ⟨4294967, 296000000⟩ (.timeb 0 0) = 0 ∧
      timeout (Timespec.rounded ⟨4294967, 296000000⟩ - Clock.reading (.timeb 0 0)) =
        INFINITE - 1 ∧
      relmillisecs ⟨1, 0⟩ (.timeb 0 0) = 1000 :=
  ⟨⟨by decide, by decide⟩, by decide, by decide, by decide⟩

end CodeCollect.Pthreads.RelativeTime
