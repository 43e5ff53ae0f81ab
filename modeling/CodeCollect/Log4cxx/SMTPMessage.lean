import CodeCollect.Log4cxx.LogChar

namespace CodeCollect.Log4cxx.SMTPMessage

def isFeed (c : Nat) : Bool := c == 0x0A || c == 0x0D

/-- The loop with `find_first_of` comes to each carriage return and line feed. -/
def feedCount (str : LogChars) : Nat := str.countP isFeed

/-- These are the characters that the function allocates. -/
def allocated (str : LogChars) : Nat := str.length + feedCount str + 1

/-- The character behind a written line break is skipped when it is one as well. -/
def skipNext : LogChars → LogChars
  | [] => []
  | next :: further => if next = 0x0A ∨ next = 0x0D then further else next :: further

theorem skipNext_length (rest : LogChars) : (skipNext rest).length ≤ rest.length := by
  cases rest with
  | nil => exact le_rfl
  | cons next further =>
      rw [skipNext]
      split
      · exact Nat.le_succ _
      · exact le_rfl

/-- This is the loop over the message, with the distance of `current` from `startOfLine`. -/
def toMessageFrom (str : LogChars) (column : Nat) : LogChars :=
  match str with
  | [] => []
  | c :: rest =>
      if c > 0x7F then 0x3F :: toMessageFrom rest (column + 1)
      else if c = 0x0A ∨ c = 0x0D then 0x0D :: 0x0A :: toMessageFrom (skipNext rest) 0
      else if column < 998 then c :: toMessageFrom rest (column + 1)
      else toMessageFrom rest column
termination_by str.length
decreasing_by
  · exact Nat.lt_succ_self _
  · exact Nat.lt_succ_of_le (skipNext_length rest)
  · exact Nat.lt_succ_self _
  · exact Nat.lt_succ_self _

/-- The result ends before the null character that is written last. -/
def toMessage (str : LogChars) : LogChars := toMessageFrom str 0

/-- The lines of a text end at a line feed, a carriage return, or both in this order. -/
def lines : LogChars → List LogChars
  | [] => [[]]
  | 0x0D :: 0x0A :: rest => [] :: lines rest
  | c :: rest => if isFeed c then [] :: lines rest else (lines rest).modifyHead (c :: ·)

def ascii (c : Nat) : Nat := if c > 0x7F then 0x3F else c

/-- This is the text that the lines have in a message. -/
def framed (str : LogChars) : LogChars :=
  List.intercalate [0x0D, 0x0A] ((lines str).map fun line => (line.take 998).map ascii)

/-- This is the number of line breaks in a run of their characters. -/
def breaks : LogChars → Nat
  | [] => 0
  | 0x0D :: 0x0A :: rest => breaks rest + 1
  | _ :: rest => breaks rest + 1

def lineOf (str : LogChars) : LogChars := str.takeWhile (!isFeed ·)

/-- This is the run of line break characters behind the first line. -/
def runOf (str : LogChars) : LogChars := (str.dropWhile (!isFeed ·)).takeWhile isFeed

def restOf (str : LogChars) : LogChars := (str.dropWhile (!isFeed ·)).dropWhile isFeed

theorem parts_eq (str : LogChars) : lineOf str ++ (runOf str ++ restOf str) = str := by
  rw [lineOf, runOf, restOf, List.takeWhile_append_dropWhile, List.takeWhile_append_dropWhile]

theorem restOf_length {str : LogChars} (more : runOf str ≠ []) :
    (restOf str).length < str.length := by
  have lengths := congrArg List.length (parts_eq str)
  have positive := List.length_pos_of_ne_nil more
  rw [List.length_append, List.length_append] at lengths
  omega

/-- No line has other than ASCII characters behind its first 998, and in each run of line break
characters at most one is not in a pair. -/
def Framed (str : LogChars) : Prop :=
  (∀ c ∈ (lineOf str).drop 998, c ≤ 0x7F) ∧
    if runOf str = [] then True
    else 2 * breaks (runOf str) ≤ (runOf str).length + 1 ∧ Framed (restOf str)
termination_by str.length
decreasing_by exact restOf_length ‹_›

theorem isFeed_iff (c : Nat) : isFeed c = true ↔ c = 0x0A ∨ c = 0x0D := by
  rw [isFeed, Bool.or_eq_true, beq_iff_eq, beq_iff_eq]

theorem feedCount_feed {c : Nat} (feed : c = 0x0A ∨ c = 0x0D) (rest : LogChars) :
    feedCount (c :: rest) = feedCount rest + 1 :=
  List.countP_cons_of_pos ((isFeed_iff c).mpr feed)

theorem feedCount_le {str other : LogChars} (part : str.Sublist other) :
    feedCount str ≤ feedCount other :=
  part.countP_le

theorem skipNext_sublist (rest : LogChars) : (skipNext rest).Sublist rest := by
  cases rest with
  | nil => exact .slnil
  | cons next further =>
      rw [skipNext]
      split
      · exact List.sublist_cons_self next further
      · exact List.Sublist.refl _

/-- The message is written within the allocated characters. -/
theorem toMessageFrom_length (str : LogChars) (column : Nat) :
    (toMessageFrom str column).length ≤ str.length + feedCount str := by
  fun_induction toMessageFrom str column with
  | case1 => exact Nat.zero_le _
  | case2 column c rest other ih =>
      have less := feedCount_le (List.sublist_cons_self c rest)
      rw [List.length_cons, List.length_cons]
      omega
  | case3 column c rest other feed ih =>
      have less := feedCount_le (skipNext_sublist rest)
      have shorter := skipNext_length rest
      rw [feedCount_feed feed]
      simp only [List.length_cons]
      omega
  | case4 column c rest other plain short ih =>
      have less := feedCount_le (List.sublist_cons_self c rest)
      rw [List.length_cons, List.length_cons]
      omega
  | case5 column c rest other plain long ih =>
      have less := feedCount_le (List.sublist_cons_self c rest)
      rw [List.length_cons]
      omega

section Line

variable {line : LogChars}

/-- What the loop writes for the characters of a line that begins at a column. -/
def written (line : LogChars) (column : Nat) : LogChars :=
  (line.take (998 - column)).map ascii ++
    ((line.drop (998 - column)).filter (· > 0x7F)).map ascii

theorem written_cons (c : Nat) (line : LogChars) (column : Nat) :
    written (c :: line) column =
      if c > 0x7F then 0x3F :: written line (column + 1)
      else if column < 998 then c :: written line (column + 1)
      else written line column := by
  rw [written, written, written]
  by_cases short : column < 998
  · have next : 998 - column = (998 - (column + 1)) + 1 := by omega
    rw [next, List.take_succ_cons, List.drop_succ_cons, List.map_cons, List.cons_append, ascii,
      if_pos short]
    split <;> rfl
  · have zero : 998 - column = 0 := by omega
    have later : 998 - (column + 1) = 0 := by omega
    rw [zero, later, if_neg short, List.take_zero, List.take_zero, List.drop_zero, List.drop_zero,
      List.map_nil, List.nil_append, List.nil_append, List.filter_cons]
    by_cases other : c > 0x7F
    · rw [if_pos (decide_eq_true other), if_pos other, List.map_cons, ascii, if_pos other]
    · rw [if_neg (by simpa using other), if_neg other]

theorem toMessageFrom_line (plain : ∀ c ∈ line, isFeed c = false) (rest : LogChars)
    (column : Nat) : ∃ last, toMessageFrom (line ++ rest) column =
      written line column ++ toMessageFrom rest last := by
  induction line generalizing column with
  | nil => exact ⟨column, by simp [written]⟩
  | cons c line ih =>
      rw [List.forall_mem_cons] at plain
      have other : ¬ (c = 0x0A ∨ c = 0x0D) := by
        rw [← isFeed_iff, plain.1]
        exact Bool.false_ne_true
      rw [List.cons_append, toMessageFrom, written_cons]
      split
      · obtain ⟨last, onward⟩ := ih plain.2 (column + 1)
        exact ⟨last, by rw [onward, List.cons_append]⟩
      · split
        · obtain ⟨last, onward⟩ := ih plain.2 (column + 1)
          exact ⟨last, by rw [onward, List.cons_append]⟩
        · exact ih plain.2 column

/-- Only characters behind the limit can be written too much. -/
theorem written_iff : written line 0 = (line.take 998).map ascii ↔
    ∀ c ∈ line.drop 998, c ≤ 0x7F := by
  rw [written, Nat.sub_zero]
  constructor
  · intro same c member
    have none := List.append_right_eq_self.mp same
    by_contra large
    rw [List.map_eq_nil_iff, List.filter_eq_nil_iff] at none
    exact none c member (by simpa using large)
  · intro small
    have none : (line.drop 998).filter (· > 0x7F) = [] := by
      rw [List.filter_eq_nil_iff]
      intro c member large
      exact absurd (small c member) (not_le.mpr (of_decide_eq_true large))
    rw [none, List.map_nil, List.append_nil]

end Line

section Run

variable {run rest : LogChars}

theorem skipNext_apart (apart : ∀ c ∈ rest.head?, isFeed c = false) : skipNext rest = rest := by
  cases rest with
  | nil => rfl
  | cons c rest =>
      rw [skipNext, if_neg]
      rw [← isFeed_iff, apart c rfl]
      exact Bool.false_ne_true

theorem toMessageFrom_feed {c : Nat} (feed : isFeed c = true) (rest : LogChars) (column : Nat) :
    toMessageFrom (c :: rest) column = 0x0D :: 0x0A :: toMessageFrom (skipNext rest) 0 := by
  rw [isFeed_iff] at feed
  rw [toMessageFrom, if_neg, if_pos feed]
  omega

/-- The loop writes a line break for two of the characters, or for the last one alone. -/
theorem toMessageFrom_run (run : LogChars) (feeds : ∀ c ∈ run, isFeed c = true)
    (apart : ∀ c ∈ rest.head?, isFeed c = false) :
    toMessageFrom (run ++ rest) 0 =
      (List.replicate ((run.length + 1) / 2) [0x0D, 0x0A]).flatten ++ toMessageFrom rest 0 := by
  match run with
  | [] => rfl
  | [c] =>
      rw [List.singleton_append, toMessageFrom_feed (feeds c List.mem_cons_self),
        skipNext_apart apart, List.length_singleton, List.replicate_succ, List.flatten_cons]
      rfl
  | c :: d :: run =>
      rw [List.forall_mem_cons, List.forall_mem_cons] at feeds
      have skipped : skipNext (d :: (run ++ rest)) = run ++ rest :=
        if_pos ((isFeed_iff d).mp feeds.2.1)
      have half : (run.length + 1 + 1 + 1) / 2 = (run.length + 1) / 2 + 1 := by omega
      rw [List.cons_append, List.cons_append, toMessageFrom_feed feeds.1, skipped,
        toMessageFrom_run run feeds.2.2 apart, List.length_cons, List.length_cons, half,
        List.replicate_succ, List.flatten_cons]
      rfl

theorem lines_feed {c : Nat} (feed : isFeed c = true) (rest : LogChars)
    (single : c = 0x0D → ∀ further, rest ≠ 0x0A :: further) : lines (c :: rest) = [] :: lines rest := by
  rw [lines, if_pos feed]
  intro further same tail
  exact single same further tail

/-- Each line break of a run ends a line. -/
theorem lines_run (feeds : ∀ c ∈ run, isFeed c = true)
    (apart : ∀ c ∈ rest.head?, isFeed c = false) :
    lines (run ++ rest) = List.replicate (breaks run) [] ++ lines rest := by
  fun_induction breaks run with
  | case1 => rfl
  | case2 run ih =>
      rw [List.forall_mem_cons, List.forall_mem_cons] at feeds
      simp only [List.replicate_succ, List.cons_append]
      rw [← ih feeds.2.2, lines]
  | case3 c run other ih =>
      rw [List.forall_mem_cons] at feeds
      simp only [List.replicate_succ, List.cons_append]
      rw [← ih feeds.2]
      apply lines_feed feeds.1
      intro carriage further same
      cases run with
      | nil =>
          rw [List.nil_append] at same
          exact absurd (apart 0x0A (same ▸ rfl)) (by decide)
      | cons d run => exact other run carriage (congrArg (· :: run) (List.cons.inj same).1)

theorem breaks_ge (run : LogChars) : run.length ≤ 2 * breaks run := by
  fun_induction breaks run with
  | case1 => exact le_rfl
  | case2 run ih =>
      rw [List.length_cons, List.length_cons]
      omega
  | case3 c run other ih =>
      rw [List.length_cons]
      omega

end Run

section Text

theorem lines_plain {c : Nat} (plain : isFeed c = false) (rest : LogChars) :
    lines (c :: rest) = (lines rest).modifyHead (c :: ·) := by
  rw [lines, if_neg (by rw [plain]; exact Bool.false_ne_true)]
  intro further same _
  rw [same] at plain
  exact absurd plain (by decide)

theorem lines_ne_nil (str : LogChars) : lines str ≠ [] := by
  fun_induction lines str with
  | case1 => exact List.cons_ne_nil _ _
  | case2 => exact List.cons_ne_nil _ _
  | case3 => exact List.cons_ne_nil _ _
  | case4 c rest other plain ih => exact mt List.modifyHead_eq_nil_iff.mp ih

/-- A line goes on into the first line of what follows. -/
theorem lines_line {line : LogChars} (plain : ∀ c ∈ line, isFeed c = false) (rest : LogChars) :
    lines (line ++ rest) = (lines rest).modifyHead (line ++ ·) := by
  induction line with
  | nil => exact (congrFun List.modifyHead_id (lines rest)).symm
  | cons c line ih =>
      rw [List.forall_mem_cons] at plain
      rw [List.cons_append, lines_plain plain.1, ih plain.2, List.modifyHead_modifyHead]
      rfl

theorem framed_line {line : LogChars} (plain : ∀ c ∈ line, isFeed c = false) :
    framed line = (line.take 998).map ascii := by
  have single := lines_line plain []
  rw [List.append_nil] at single
  rw [framed, single, lines, List.modifyHead_cons, List.append_nil, List.map_singleton,
    List.intercalate_singleton]

theorem intercalate_replicate (sep : LogChars) (count : Nat) {texts : List LogChars}
    (filled : texts ≠ []) :
    List.intercalate sep (List.replicate count [] ++ texts) =
      (List.replicate count sep).flatten ++ List.intercalate sep texts := by
  induction count with
  | zero => rfl
  | succ count ih =>
      have more : List.replicate count [] ++ texts ≠ [] := by simp [filled]
      rw [List.replicate_succ, List.cons_append, List.intercalate_cons_of_ne_nil more, ih,
        List.replicate_succ, List.flatten_cons, List.nil_append, List.append_assoc]

theorem framed_run {line run rest : LogChars} (plain : ∀ c ∈ line, isFeed c = false)
    (feeds : ∀ c ∈ run, isFeed c = true) (apart : ∀ c ∈ rest.head?, isFeed c = false)
    (filled : run ≠ []) :
    framed (line ++ (run ++ rest)) = (line.take 998).map ascii ++
      ((List.replicate (breaks run) [0x0D, 0x0A]).flatten ++ framed rest) := by
  have positive := List.length_pos_of_ne_nil filled
  have enough := breaks_ge run
  obtain ⟨count, counted⟩ : ∃ count, breaks run = count + 1 :=
    Nat.exists_eq_succ_of_ne_zero (by omega)
  have texts : (lines rest).map (fun line => (line.take 998).map ascii) ≠ [] :=
    mt List.map_eq_nil_iff.mp (lines_ne_nil rest)
  have more : List.replicate count [] ++ (lines rest).map (fun line => (line.take 998).map ascii) ≠
      [] := by
    simp [lines_ne_nil]
  have split : lines (line ++ (run ++ rest)) =
      line :: (List.replicate count [] ++ lines rest) := by
    rw [lines_line plain, lines_run feeds apart, counted, List.replicate_succ, List.cons_append,
      List.modifyHead_cons, List.append_nil]
  rw [framed, split, List.map_cons, List.map_append, List.map_replicate, List.take_nil,
    List.map_nil, List.intercalate_cons_of_ne_nil more, intercalate_replicate _ _ texts, counted,
    List.replicate_succ, List.flatten_cons, framed]
  simp only [List.append_assoc]

/-- Two texts of a kind are the same when they are followed by texts of another kind. -/
theorem append_eq_iff (kind : Nat → Bool) {xs xs' ys ys' : LogChars}
    (first : ∀ c ∈ xs, kind c = true) (second : ∀ c ∈ xs', kind c = true)
    (other : ∀ c ∈ ys.head?, kind c = false) (other' : ∀ c ∈ ys'.head?, kind c = false) :
    xs ++ ys = xs' ++ ys' ↔ xs = xs' ∧ ys = ys' := by
  have ended : ∀ text : LogChars, (∀ c ∈ text.head?, kind c = false) →
      text.takeWhile kind = [] := by
    intro text differs
    cases text with
    | nil => rfl
    | cons c text => exact List.takeWhile_cons_of_neg (by simp [differs c rfl])
  constructor
  · intro same
    have taken := congrArg (List.takeWhile kind) same
    rw [List.takeWhile_append_of_pos first, List.takeWhile_append_of_pos second, ended ys other,
      ended ys' other', List.append_nil, List.append_nil] at taken
    rw [taken] at same
    exact ⟨taken, List.append_cancel_left same⟩
  · rintro ⟨rfl, rfl⟩
    rfl

end Text

/-- The characters of a line stay in the line. -/
theorem ascii_plain {c : Nat} (plain : isFeed c = false) : isFeed (ascii c) = false := by
  rw [ascii]
  split
  · rfl
  · exact plain

theorem toMessage_head {rest : LogChars} (apart : ∀ c ∈ rest.head?, isFeed c = false) :
    ∀ c ∈ (toMessageFrom rest 0).head?, isFeed c = false := by
  cases rest with
  | nil =>
      rw [toMessageFrom]
      simp
  | cons c rest =>
      have plain := apart c rfl
      obtain ⟨last, same⟩ := @toMessageFrom_line [c] (by simpa using plain) rest 0
      rw [List.singleton_append] at same
      rw [same]
      intro d head
      rw [← Option.some.inj head]
      exact ascii_plain plain

theorem framed_head {rest : LogChars} (apart : ∀ c ∈ rest.head?, isFeed c = false) :
    ∀ c ∈ (framed rest).head?, isFeed c = false := by
  cases rest with
  | nil => simp [framed, lines]
  | cons c rest =>
      have plain := apart c rfl
      obtain ⟨line, more, split⟩ := List.exists_cons_of_ne_nil (lines_ne_nil rest)
      have begins : ∃ text, framed (c :: rest) = ascii c :: text := by
        rw [framed, lines_plain plain, split, List.modifyHead_cons, List.map_cons,
          List.take_succ_cons, List.map_cons]
        cases more with
        | nil => exact ⟨_, List.intercalate_singleton⟩
        | cons next more =>
            rw [List.map_cons, List.intercalate_cons_cons, List.cons_append, List.cons_append]
            exact ⟨_, rfl⟩
      obtain ⟨text, same⟩ := begins
      rw [same]
      intro d head
      rw [← Option.some.inj head]
      exact ascii_plain plain

theorem plain_of_mem_ascii {line : LogChars} (plain : ∀ c ∈ line, isFeed c = false) {d : Nat}
    (member : d ∈ line.map ascii) : isFeed d = false := by
  obtain ⟨c, inside, rfl⟩ := List.mem_map.mp member
  exact ascii_plain (plain c inside)

theorem lineOf_plain (str : LogChars) : ∀ c ∈ lineOf str, isFeed c = false := by
  intro c member
  have other := List.mem_takeWhile_imp member
  simpa using other

theorem runOf_feeds (str : LogChars) : ∀ c ∈ runOf str, isFeed c = true := fun _ member =>
  List.mem_takeWhile_imp member

theorem restOf_apart (str : LogChars) : ∀ c ∈ (restOf str).head?, isFeed c = false := by
  intro c head
  have other := List.head?_dropWhile_not isFeed (str.dropWhile (!isFeed ·))
  rw [restOf] at head
  rw [Option.mem_def.mp head] at other
  exact other

/-- Without a run of line break characters nothing is left. -/
theorem restOf_nil {str : LogChars} (none : runOf str = []) : restOf str = [] := by
  have behind := List.head?_dropWhile_not (!isFeed ·) str
  rw [runOf] at none
  rw [restOf]
  cases left : str.dropWhile (!isFeed ·) with
  | nil => rfl
  | cons c rest =>
      rw [left] at behind none
      have feed : isFeed c = true := by simpa using behind
      rw [List.takeWhile_cons_of_pos feed] at none
      exact absurd none (List.cons_ne_nil _ _)

theorem feeds_of_mem_replicate (count : Nat) :
    ∀ c ∈ (List.replicate count [0x0D, 0x0A]).flatten, isFeed c = true := by
  intro c member
  obtain ⟨pair, copied, inside⟩ := List.mem_flatten.mp member
  rw [List.eq_of_mem_replicate copied] at inside
  rw [isFeed_iff, or_comm]
  simpa using inside

/-- A text that begins with a line break has no other character first. -/
theorem replicate_head {count : Nat} (positive : 0 < count) (text : LogChars) :
    ∀ c ∈ ((List.replicate count [0x0D, 0x0A]).flatten ++ text).head?, (!isFeed c) = false := by
  obtain ⟨count, rfl⟩ := Nat.exists_eq_succ_of_ne_zero positive.ne'
  intro c head
  rw [← Option.some.inj head]
  rfl

theorem replicate_flatten_iff (count other : Nat) :
    (List.replicate count [0x0D, 0x0A]).flatten = (List.replicate other [0x0D, 0x0A]).flatten ↔
      count = other := by
  constructor
  · intro same
    have lengths := congrArg List.length same
    simp only [List.length_flatten, List.map_replicate, List.sum_replicate] at lengths
    simpa using lengths
  · rintro rfl
    rfl

/-- The message has the lines of the text exactly when the text is framed. -/
theorem toMessage_iff (str : LogChars) : toMessage str = framed str ↔ Framed str := by
  induction size : str.length using Nat.strong_induction_on generalizing str with
  | _ n ih =>
      have parts := parts_eq str
      have plain := lineOf_plain str
      have feeds := runOf_feeds str
      have apart := restOf_apart str
      rw [Framed, ← written_iff]
      by_cases more : runOf str = []
      · rw [more, restOf_nil more, List.append_nil, List.append_nil] at parts
        obtain ⟨last, same⟩ := toMessageFrom_line plain [] 0
        rw [List.append_nil, toMessageFrom, List.append_nil] at same
        rw [if_pos more, and_true, ← same, ← framed_line plain, parts]
        rfl
      · obtain ⟨last, same⟩ := toMessageFrom_line plain (runOf str ++ restOf str) 0
        have column : toMessageFrom (runOf str ++ restOf str) last =
            toMessageFrom (runOf str ++ restOf str) 0 := by
          obtain ⟨c, run, split⟩ := List.exists_cons_of_ne_nil more
          have feed : isFeed c = true := feeds c (split ▸ List.mem_cons_self)
          rw [split, List.cons_append, toMessageFrom_feed feed, toMessageFrom_feed feed]
        rw [column, toMessageFrom_run _ feeds apart, parts] at same
        have lined := framed_run plain feeds apart more
        rw [parts] at lined
        have positive := List.length_pos_of_ne_nil more
        have enough := breaks_ge (runOf str)
        have kept : ∀ c ∈ written (lineOf str) 0, (!isFeed c) = true := by
          intro c member
          rw [written, ← List.map_append] at member
          rw [plain_of_mem_ascii (fun c inside => plain c ?_) member]
          · rfl
          · exact (List.mem_append.mp inside).elim List.mem_of_mem_take fun filtered =>
              List.mem_of_mem_drop (List.mem_of_mem_filter filtered)
        have cut : ∀ c ∈ ((lineOf str).take 998).map ascii, (!isFeed c) = true := by
          intro c member
          rw [plain_of_mem_ascii (fun c inside => plain c (List.mem_of_mem_take inside)) member]
          rfl
        rw [if_neg more, ← ih _ (size ▸ restOf_length more) (restOf str) rfl, toMessage, same, lined,
          append_eq_iff (!isFeed ·) kept cut (replicate_head (by omega) _)
            (replicate_head (by omega) _),
          append_eq_iff isFeed (feeds_of_mem_replicate _) (feeds_of_mem_replicate _)
            (toMessage_head apart) (framed_head apart), replicate_flatten_iff]
        apply and_congr_right
        intro _
        apply and_congr_left
        intro _
        omega

/-- The message fits into what is allocated, and it has the lines of the text exactly for these
texts. -/
theorem frames_iff (str : LogChars) :
    (toMessage str).length + 1 ≤ allocated str ∧ (toMessage str = framed str ↔ Framed str) :=
  ⟨Nat.succ_le_succ (toMessageFrom_length str 0), toMessage_iff str⟩

/-- An empty line is lost. -/
theorem blank_line_lost : ¬ ∀ str : LogChars, 0 ∉ str →
    (toMessage str).length + 1 ≤ allocated str ∧ toMessage str = framed str := by
  intro always
  have blank := (always [0x61, 0x0A, 0x0A, 0x62] (by decide)).2
  have short : toMessage [0x61, 0x0A, 0x0A, 0x62] = [0x61, 0x0D, 0x0A, 0x62] := by
    simp [toMessage, toMessageFrom, skipNext]
  have long : framed [0x61, 0x0A, 0x0A, 0x62] = [0x61, 0x0D, 0x0A, 0x0D, 0x0A, 0x62] := by
    decide
  exact absurd (short.symm.trans (blank.trans long)) (by decide)

end CodeCollect.Log4cxx.SMTPMessage
