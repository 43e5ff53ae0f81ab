import Mathlib

namespace CodeCollect.Library

/-- An input stream has the text that is left and two error bits. -/
structure IStream where
  rest : List Char
  eof : Bool
  fail : Bool
deriving DecidableEq

namespace IStream

/-- A stream without errors. -/
def ofText (text : List Char) : IStream := ⟨text, false, false⟩

/-- A stream that has failed before its end is never read again. -/
def Stuck (s : IStream) : Prop := s.eof = false ∧ s.fail = true

end IStream

namespace FormattedInput

def isSpace (c : Char) : Bool :=
  c == ' ' || c == '\t' || c == '\n' || c == '\x0b' || c == '\x0c' || c == '\r'

/-- A scanner finds a value to store, whether it is accepted, and the text behind it. -/
abbrev Scanner (α : Type) := List Char → α × Bool × List Char

/-- Formatted input skips white space. At the end of the text and after an error it stores nothing. -/
def extract {α : Type} (scan : Scanner α) (old : α) : StateM IStream α := fun s =>
  if s.eof || s.fail then (old, { s with fail := true })
  else
    let text := s.rest.dropWhile isSpace
    if text = [] then (old, ⟨[], true, true⟩)
    else
      let found := scan text
      (found.1, ⟨found.2.2, found.2.2.isEmpty, !found.2.1⟩)

/-- What input without errors leads to: it reaches the end of the text, it gets stuck before, or it
gives a value and some text is left. -/
inductive Reading (α : Type) where
  | cut
  | stuck
  | next (value : α) (rest : List Char)

/-- What a number in a text leads to. -/
abbrev View (α : Type) := List Char → Reading α

namespace View

variable {α β : Type}

def pure (value : α) : View α := fun text => .next value text

def bind (view : View α) (after : α → View β) : View β := fun text =>
  match view text with
  | .cut => .cut
  | .stuck => .stuck
  | .next value rest => after value rest

/-- What one number leads to. -/
def scanned (scan : Scanner α) : View α := fun text =>
  let trimmed := text.dropWhile isSpace
  if trimmed = [] then .cut
  else
    let found := scan trimmed
    if found.2.2 = [] then .cut
    else if found.2.1 then .next found.1 found.2.2
    else .stuck

/-- The value that one number stores, even if it is not accepted. -/
def stored (scan : Scanner α) (text : List Char) : Option α :=
  let trimmed := text.dropWhile isSpace
  if trimmed = [] then none else some (scan trimmed).1

theorem stored_of_next {scan : Scanner α} {text rest : List Char} {value : α}
    (found : scanned scan text = .next value rest) : stored scan text = some value := by
  rw [scanned] at found
  rw [stored]
  dsimp only at found ⊢
  split at found
  · cases found
  next more =>
    rw [if_neg more]
    split at found
    · cases found
    · split at found
      · cases found
        rfl
      · cases found

/-- The numbers of a list are read one after the other. -/
def each {Item : Type} (view : Item → View α) : List Item → View (List α)
  | [] => pure []
  | item :: items => (view item).bind fun value => (each view items).bind fun values =>
      pure (value :: values)

end View

/-- A view says what an input does to a stream without errors, and the input keeps the errors of the
other streams. -/
structure Reads {α : Type} (run : StateM IStream α) (view : View α) : Prop where
  ended : ∀ s : IStream, s.eof = true → (run s).2.eof = true
  stuck : ∀ s : IStream, s.Stuck → (run s).2.Stuck
  cut : ∀ text, view text = .cut → (run (.ofText text)).2.eof = true
  stops : ∀ text, view text = .stuck → (run (.ofText text)).2.Stuck
  next : ∀ text value rest, view text = .next value rest →
    run (.ofText text) = (value, .ofText rest)

namespace Reads

variable {α β : Type}

theorem pure (value : α) : Reads (Pure.pure value) (View.pure value) where
  ended _ eof := eof
  stuck _ stuck := stuck
  cut _ none := by cases none
  stops _ none := by cases none
  next _ _ _ same := by
    cases same
    rfl

theorem bind {run : StateM IStream α} {view : View α} {next : α → StateM IStream β}
    {after : α → View β} (reads : Reads run view) (rest : ∀ value, Reads (next value) (after value)) :
    Reads (run >>= next) (view.bind after) where
  ended s eof := (rest _).ended _ (reads.ended s eof)
  stuck s stuck := (rest _).stuck _ (reads.stuck s stuck)
  cut text cut := by
    change (next (run (.ofText text)).1 (run (.ofText text)).2).2.eof = true
    rw [View.bind] at cut
    cases found : view text with
    | cut => exact (rest _).ended _ (reads.cut text found)
    | stuck =>
        rw [found] at cut
        cases cut
    | next value later =>
        rw [found] at cut
        rw [reads.next text value later found]
        exact (rest value).cut later cut
  stops text stops := by
    change (next (run (.ofText text)).1 (run (.ofText text)).2).2.Stuck
    rw [View.bind] at stops
    cases found : view text with
    | cut =>
        rw [found] at stops
        cases stops
    | stuck => exact (rest _).stuck _ (reads.stops text found)
    | next value later =>
        rw [found] at stops
        rw [reads.next text value later found]
        exact (rest value).stops later stops
  next text value later read := by
    change next (run (.ofText text)).1 (run (.ofText text)).2 = _
    rw [View.bind] at read
    cases found : view text with
    | cut =>
        rw [found] at read
        cases read
    | stuck =>
        rw [found] at read
        cases read
    | next first middle =>
        rw [found] at read
        rw [reads.next text first middle found]
        exact (rest first).next middle value later read

theorem extract (scan : Scanner α) (old : α) :
    Reads (FormattedInput.extract scan old) (View.scanned scan) where
  ended s eof := by
    rw [FormattedInput.extract, eof, Bool.true_or, if_pos rfl]
  stuck s stuck := by
    rw [FormattedInput.extract, stuck.2, Bool.or_true, if_pos rfl]
    exact ⟨stuck.1, rfl⟩
  cut text cut := by
    rw [View.scanned] at cut
    rw [FormattedInput.extract, IStream.ofText, Bool.or_self, if_neg Bool.false_ne_true]
    dsimp only at cut ⊢
    split at cut
    next blank => rw [if_pos blank]
    next found =>
      rw [if_neg found]
      split at cut
      next finished =>
        rw [finished]
        rfl
      next more => split at cut <;> cases cut
  stops text stops := by
    rw [View.scanned] at stops
    rw [FormattedInput.extract, IStream.ofText, Bool.or_self, if_neg Bool.false_ne_true]
    dsimp only at stops ⊢
    split at stops
    · cases stops
    next found =>
      rw [if_neg found]
      split at stops
      · cases stops
      next more =>
        split at stops
        · cases stops
        next rejected =>
          exact ⟨List.isEmpty_eq_false_iff.mpr more, by simpa using rejected⟩
  next text value rest read := by
    rw [View.scanned] at read
    rw [FormattedInput.extract, IStream.ofText, Bool.or_self, if_neg Bool.false_ne_true]
    dsimp only at read ⊢
    split at read
    · cases read
    next found =>
      rw [if_neg found]
      split at read
      · cases read
      next more =>
        split at read
        next accepted =>
          cases read
          rw [accepted, List.isEmpty_eq_false_iff.mpr more]
          rfl
        · cases read

/-- A value that is not stored is the old one. -/
theorem extract_stored (scan : Scanner α) (old : α) (text : List Char) :
    (FormattedInput.extract scan old (.ofText text)).1 = (View.stored scan text).getD old := by
  rw [FormattedInput.extract, View.stored, IStream.ofText, Bool.or_self, if_neg Bool.false_ne_true]
  dsimp only
  split <;> rfl

/-- After an error nothing is stored. -/
theorem extract_failed (scan : Scanner α) (old : α) {s : IStream} (failed : s.eof = true ∨ s.fail = true) :
    (FormattedInput.extract scan old s).1 = old := by
  rw [FormattedInput.extract, if_pos (Bool.or_eq_true_iff.mpr failed)]

/-- A loop over the numbers of a list. -/
theorem each {Item : Type} {run : Item → StateM IStream α} {view : Item → View α}
    (reads : ∀ item, Reads (run item) (view item)) (items : List Item) :
    Reads (items.mapM run) (View.each view items) := by
  induction items with
  | nil => exact pure []
  | cons item items ih =>
      rw [List.mapM_cons]
      exact (reads item).bind fun value => ih.bind fun values => pure (value :: values)

end Reads

/-- Text that stands behind a number starts with white space, if there is any. -/
def Spaced (text : List Char) : Prop := ∀ c ∈ text.head?, isSpace c = true

/-- A view takes the whole text, whatever follows behind white space. -/
def Follows {α : Type} (view : View α) (text : List Char) (value : α) : Prop :=
  ∀ c rest, isSpace c = true → view (text ++ c :: rest) = .next value (c :: rest)

/-- A view gets stuck in the text, whatever follows behind white space. -/
def Jams {α : Type} (view : View α) (text : List Char) : Prop :=
  ∀ c rest, isSpace c = true → view (text ++ c :: rest) = .stuck

section Texts

variable {α β Item : Type} {view : View α} {after : α → View β} {text later : List Char} {value : α}

theorem Spaced.starts (spaced : Spaced text) {c : Char} (space : isSpace c = true)
    (rest : List Char) : ∃ d more, text ++ c :: rest = d :: more ∧ isSpace d = true := by
  cases text with
  | nil => exact ⟨c, rest, rfl, space⟩
  | cons d more => exact ⟨d, more ++ c :: rest, rfl, spaced d rfl⟩

theorem Spaced.nil : Spaced [] := fun _ none => by cases none

theorem Spaced.append {first second : List Char} (one : Spaced first) (two : Spaced second) :
    Spaced (first ++ second) := by
  cases first with
  | nil => exact two
  | cons d more => exact one

theorem Follows.pure (value : α) : Follows (View.pure value) [] value := fun _ _ _ => rfl

theorem Follows.bind {result : β} (follows : Follows view text value)
    (rest : Follows (after value) later result) (spaced : Spaced later) :
    Follows (view.bind after) (text ++ later) result := by
  intro c more space
  obtain ⟨d, tail, split, blank⟩ := spaced.starts space more
  rw [View.bind, List.append_assoc, split, follows d tail blank, ← split]
  exact rest c more space

theorem Follows.jams (follows : Follows view text value) (rest : Jams (after value) later)
    (spaced : Spaced later) : Jams (view.bind after) (text ++ later) := by
  intro c more space
  obtain ⟨d, tail, split, blank⟩ := spaced.starts space more
  rw [View.bind, List.append_assoc, split, follows d tail blank, ← split]
  exact rest c more space

theorem Jams.bind (jams : Jams view text) (spaced : Spaced later) (after : α → View β) :
    Jams (view.bind after) (text ++ later) := by
  intro c more space
  obtain ⟨d, tail, split, blank⟩ := spaced.starts space more
  rw [View.bind, List.append_assoc, split, jams d tail blank]

/-- A view takes the whole text if the condition holds, and gets stuck in it otherwise. -/
structure Spells (view : View α) (text : List Char) (holds : Prop) (value : α) : Prop where
  follows : holds → Follows view text value
  jams : ¬ holds → Jams view text

theorem Spells.pure (value : α) : Spells (View.pure value) [] True value :=
  ⟨fun _ => .pure value, fun never => absurd trivial never⟩

theorem Spells.bind {holds more : Prop} {result : β} (spells : Spells view text holds value)
    (rest : Spells (after value) later more result) (spaced : Spaced later) :
    Spells (view.bind after) (text ++ later) (holds ∧ more) result where
  follows both := (spells.follows both.1).bind (rest.follows both.2) spaced
  jams bad := by
    by_cases first : holds
    · exact (spells.follows first).jams (rest.jams fun second => bad ⟨first, second⟩) spaced
    · exact (spells.jams first).bind spaced after

variable {view : Item → View α} {text : Item → List Char} {value : Item → α}

theorem Spaced.flatMap (spaced : ∀ item, Spaced (text item)) (items : List Item) :
    Spaced (items.flatMap text) := by
  induction items with
  | nil => exact .nil
  | cons item items ih => exact (spaced item).append ih

theorem Spells.each {holds : Item → Prop} (spaced : ∀ item, Spaced (text item)) (items : List Item)
    (spells : ∀ item, Spells (view item) (text item) (holds item) (value item)) :
    Spells (View.each view items) (items.flatMap text) (∀ item ∈ items, holds item)
      (items.map value) := by
  induction items with
  | nil => exact ⟨fun _ => .pure [], fun bad => absurd (fun _ none => by cases none) bad⟩
  | cons item items ih =>
      have later : Spells ((View.each view items).bind fun values => View.pure (value item :: values))
          (items.flatMap text ++ []) ((∀ item ∈ items, holds item) ∧ True)
          (value item :: items.map value) := ih.bind (.pure _) .nil
      rw [List.append_nil, and_true] at later
      have both : Spells (View.each view (item :: items)) (text item ++ items.flatMap text)
          (holds item ∧ ∀ item ∈ items, holds item) (value item :: items.map value) :=
        (spells item).bind later (.flatMap spaced items)
      rw [← List.forall_mem_cons] at both
      exact both

/-- A loop over a list uses only its length. -/
theorem each_const (view : View α) {Other : Type} : ∀ {items : List Item} {others : List Other},
    items.length = others.length →
      View.each (fun _ => view) items = View.each (fun _ => view) others
  | [], [], _ => rfl
  | _ :: _, _ :: _, same => by
      rw [View.each, View.each, each_const view (Nat.succ.inj same)]

end Texts

section Numbers

/-- An optional sign is taken from the text. -/
def signed : List Char → Bool × List Char
  | '-' :: text => (true, text)
  | '+' :: text => (false, text)
  | text => (false, text)

/-- A number without digits is zero, and one out of range is the nearest one of the range. Both are
not accepted. -/
def scanInt (low high : Int) : Scanner Int := fun text =>
  let body := (signed text).2
  let digits := body.takeWhile Char.isDigit
  let rest := body.dropWhile Char.isDigit
  let size : Int := Nat.ofDigitChars 10 digits 0
  let value := if (signed text).1 then -size else size
  if digits = [] then (0, false, rest)
  else (max low (min value high), decide (low ≤ value ∧ value ≤ high), rest)

def takeDigits (text : List Char) : List Char × List Char :=
  (text.takeWhile Char.isDigit, text.dropWhile Char.isDigit)

def takeSign (text : List Char) : List Char × List Char :=
  match text with
  | c :: rest => if c = '+' ∨ c = '-' then ([c], rest) else ([], text)
  | [] => ([], [])

def takeFraction (text : List Char) : List Char × List Char :=
  match text with
  | c :: rest => if c = '.' then (c :: (takeDigits rest).1, (takeDigits rest).2) else ([], text)
  | [] => ([], [])

/-- Behind the letter stand a sign and digits. They may be missing. -/
def takeExponent (text : List Char) : List Char × List Char :=
  match text with
  | c :: rest =>
      if c = 'e' ∨ c = 'E' then
        let sign := takeSign rest
        let digits := takeDigits sign.2
        (c :: sign.1 ++ digits.1, digits.2)
      else ([], text)
  | [] => ([], [])

/-- The characters that can belong to a number, and the text behind them. There is no exponent where
no digit stands before it. -/
def collect (text : List Char) : List Char × List Char :=
  let sign := takeSign text
  let whole := takeDigits sign.2
  let fraction := takeFraction whole.2
  let exponent :=
    if whole.1 ++ fraction.1.drop 1 = [] then ([], fraction.2) else takeExponent fraction.2
  (sign.1 ++ whole.1 ++ fraction.1 ++ exponent.1, exponent.2)

/-- The decimal text of a finite number. -/
structure Numeral where
  negative : Bool
  whole : List Char
  fraction : Option (List Char)
  exponent : Option (Bool × List Char)
  filled : whole ≠ []
  decimal : ∀ c ∈ whole ++ fraction.getD [] ++ (exponent.map Prod.snd).getD [], c.isDigit = true

namespace Numeral

def fractionText : Option (List Char) → List Char
  | none => []
  | some digits => '.' :: digits

def exponentText : Option (Bool × List Char) → List Char
  | none => []
  | some (negative, digits) => 'e' :: (if negative then '-' else '+') :: digits

def text (numeral : Numeral) : List Char :=
  (if numeral.negative then ['-'] else []) ++ numeral.whole ++ fractionText numeral.fraction ++
    exponentText numeral.exponent

end Numeral

/-- A number of a floating point type. -/
inductive FloatValue (F : Type) where
  | finite (x : F)
  | infinite (negative : Bool)
  | nan (negative : Bool)

/-- How the finite numbers of a floating point type are written and read is a parameter. What is read
is a value to store and whether it is accepted. -/
structure FloatText (F : Type) where
  format : F → Numeral
  strto : List Char → F × Bool
  accepts : ∀ x, (strto (format x).text).2 = true
  digits : ∀ text, (strto text).2 = true → ∃ c ∈ text, c.isDigit = true

namespace FloatText

variable {F : Type} (self : FloatText F)

def print : FloatValue F → List Char
  | .finite x => (self.format x).text
  | .infinite negative => (if negative then ['-'] else []) ++ ['i', 'n', 'f']
  | .nan negative => (if negative then ['-'] else []) ++ ['n', 'a', 'n']

def scan : Scanner (FloatValue F) := fun text =>
  let found := collect text
  let stored := self.strto found.1
  (.finite stored.1, stored.2, found.2)

end FloatText

section Words

variable {α : Type} {scan : Scanner α} {blanks word : List Char} {first : Char}

theorem dropWhile_blanks (blank : ∀ c ∈ blanks, isSpace c = true) (starts : isSpace first = false)
    (rest : List Char) : (blanks ++ first :: rest).dropWhile isSpace = first :: rest := by
  rw [List.dropWhile_append_of_pos blank, List.dropWhile_cons_of_neg (by rw [starts]; decide)]

theorem scanned_blank (blank : ∀ c ∈ blanks, isSpace c = true) :
    View.scanned scan blanks = .cut := by
  have nothing : blanks.dropWhile isSpace = [] := List.dropWhile_eq_nil_iff.mpr blank
  exact if_pos nothing

/-- An accepted word that white space ends is followed. -/
theorem follows_word {value : α} (blank : ∀ c ∈ blanks, isSpace c = true)
    (starts : isSpace first = false)
    (found : ∀ c rest, isSpace c = true → scan (first :: word ++ c :: rest) = (value, true, c :: rest)) :
    Follows (View.scanned scan) (blanks ++ first :: word) value := by
  intro c rest space
  have here := found c rest space
  rw [List.cons_append] at here
  rw [View.scanned, List.append_assoc, List.cons_append, dropWhile_blanks blank starts, here]
  rfl

theorem jams_word (blank : ∀ c ∈ blanks, isSpace c = true) (starts : isSpace first = false)
    (found : ∀ c rest, isSpace c = true → ∃ value behind,
      scan (first :: word ++ c :: rest) = (value, false, behind) ∧ behind ≠ []) :
    Jams (View.scanned scan) (blanks ++ first :: word) := by
  intro c rest space
  obtain ⟨value, behind, here, more⟩ := found c rest space
  rw [List.cons_append] at here
  rw [View.scanned, List.append_assoc, List.cons_append, dropWhile_blanks blank starts, here]
  dsimp only
  rw [if_neg (List.cons_ne_nil _ _), if_neg more, if_neg Bool.false_ne_true]

theorem takeDigits_append {digits : List Char} (decimal : ∀ c ∈ digits, c.isDigit = true) {c : Char}
    (other : c.isDigit = false) (rest : List Char) :
    takeDigits (digits ++ c :: rest) = (digits, c :: rest) := by
  rw [takeDigits, List.takeWhile_append_of_pos decimal, List.dropWhile_append_of_pos decimal,
    List.takeWhile_cons_of_neg (by rw [other]; decide),
    List.dropWhile_cons_of_neg (by rw [other]; decide), List.append_nil]

/-- White space is no part of a number. -/
theorem isSpace_cases {c : Char} (space : isSpace c = true) :
    c.isDigit = false ∧ c ≠ '.' ∧ c ≠ 'e' ∧ c ≠ 'E' ∧ c ≠ '+' ∧ c ≠ '-' := by
  simp only [isSpace, Bool.or_eq_true, beq_iff_eq] at space
  rcases space with ((((rfl | rfl) | rfl) | rfl) | rfl) | rfl <;> decide

theorem isDigit_cases {c : Char} (digit : c.isDigit = true) :
    isSpace c = false ∧ c ≠ '+' ∧ c ≠ '-' := by
  refine ⟨?_, ?_, ?_⟩
  · by_contra space
    have other := (isSpace_cases (by simpa using space)).1
    rw [digit] at other
    cases other
  all_goals
    rintro rfl
    revert digit
    decide

end Words

section Naturals

variable {low high : Int} {n : Nat} {blanks : List Char}

/-- The digits of a number have no sign before them. -/
theorem signed_toDigits (n : Nat) (rest : List Char) :
    signed (Nat.toDigits 10 n ++ rest) = (false, Nat.toDigits 10 n ++ rest) := by
  cases digits : Nat.toDigits 10 n with
  | nil => exact absurd digits Nat.toDigits_ne_nil
  | cons d ds =>
      have digit : d.isDigit = true :=
        Nat.isDigit_of_mem_toDigits (by decide) (by decide) (digits ▸ List.mem_cons_self)
      obtain ⟨-, plus, minus⟩ := isDigit_cases digit
      rw [signed.eq_def]
      split
      next same => exact absurd (List.cons.inj same).1 minus
      next same => exact absurd (List.cons.inj same).1 plus
      · rfl

theorem scanInt_toDigits (low high : Int) (n : Nat) {c : Char} (space : isSpace c = true)
    (rest : List Char) :
    scanInt low high (Nat.toDigits 10 n ++ c :: rest) =
      (max low (min (n : Int) high), decide (low ≤ n ∧ n ≤ high), c :: rest) := by
  have decimal : ∀ c ∈ Nat.toDigits 10 n, c.isDigit = true := fun c member =>
    Nat.isDigit_of_mem_toDigits (by decide) (by decide) member
  have split := takeDigits_append decimal (isSpace_cases space).1 rest
  rw [takeDigits, Prod.mk.injEq] at split
  rw [scanInt, signed_toDigits]
  dsimp only
  rw [split.1, split.2, if_neg Nat.toDigits_ne_nil, if_neg Bool.false_ne_true,
    Nat.ofDigitChars_toDigits (by decide) (by decide)]

theorem toDigits_split (n : Nat) :
    ∃ d ds, Nat.toDigits 10 n = d :: ds ∧ isSpace d = false := by
  cases digits : Nat.toDigits 10 n with
  | nil => exact absurd digits Nat.toDigits_ne_nil
  | cons d ds =>
      exact ⟨d, ds, rfl, (isDigit_cases (Nat.isDigit_of_mem_toDigits (by decide) (by decide)
        (digits ▸ List.mem_cons_self))).1⟩

theorem follows_nat (negative : low ≤ 0) (small : n ≤ high)
    (blank : ∀ c ∈ blanks, isSpace c = true) :
    Follows (View.scanned (scanInt low high)) (blanks ++ Nat.toDigits 10 n) (n : Int) := by
  obtain ⟨d, ds, split, starts⟩ := toDigits_split n
  rw [split]
  apply follows_word blank starts
  intro c rest space
  have positive : low ≤ n := by omega
  rw [← split, scanInt_toDigits low high n space, Int.min_eq_left small, Int.max_eq_right positive,
    decide_eq_true ⟨positive, small⟩]

theorem jams_nat (large : high < n) (blank : ∀ c ∈ blanks, isSpace c = true) :
    Jams (View.scanned (scanInt low high)) (blanks ++ Nat.toDigits 10 n) := by
  obtain ⟨d, ds, split, starts⟩ := toDigits_split n
  rw [split]
  apply jams_word blank starts
  intro c rest space
  refine ⟨max low (min (n : Int) high), c :: rest, ?_, List.cons_ne_nil c rest⟩
  rw [← split, scanInt_toDigits low high n space, decide_eq_false fun range => by omega]

theorem spells_nat (negative : low ≤ 0) (n : Nat) (blank : ∀ c ∈ blanks, isSpace c = true) :
    Spells (View.scanned (scanInt low high)) (blanks ++ Nat.toDigits 10 n) (n ≤ high) (n : Int) :=
  ⟨fun small => follows_nat negative small blank, fun large => jams_nat (Int.not_le.mp large) blank⟩

/-- The number that is stored is not negative, whether it is accepted or not. -/
theorem stored_nat (low : Int) (positive : 0 ≤ high) (n : Nat)
    (blank : ∀ c ∈ blanks, isSpace c = true) {c : Char} (space : isSpace c = true)
    (rest : List Char) :
    ∃ size, View.stored (scanInt low high) (blanks ++ Nat.toDigits 10 n ++ c :: rest) = some size ∧
      0 ≤ size := by
  obtain ⟨d, ds, split, starts⟩ := toDigits_split n
  have scanned := scanInt_toDigits low high n space rest
  rw [split, List.cons_append] at scanned
  refine ⟨max low (min (n : Int) high), ?_, by omega⟩
  rw [View.stored, split, List.append_assoc, List.cons_append, dropWhile_blanks blank starts, scanned]
  rfl

end Naturals

section Floats

variable {F : Type} (self : FloatText F)

theorem takeSign_of_digit {d : Char} (digit : d.isDigit = true) (rest : List Char) :
    takeSign (d :: rest) = ([], d :: rest) := by
  obtain ⟨-, plus, minus⟩ := isDigit_cases digit
  rw [takeSign, if_neg (not_or.mpr ⟨plus, minus⟩)]

theorem takeExponent_text (exponent : Option (Bool × List Char))
    (decimal : ∀ c ∈ (exponent.map Prod.snd).getD [], c.isDigit = true) {c : Char}
    (space : isSpace c = true) (rest : List Char) :
    takeExponent (Numeral.exponentText exponent ++ c :: rest) =
      (Numeral.exponentText exponent, c :: rest) := by
  obtain ⟨digit, -, small, large, -, -⟩ := isSpace_cases space
  cases exponent with
  | none => exact if_neg (not_or.mpr ⟨small, large⟩)
  | some pair =>
      obtain ⟨negative, digits⟩ := pair
      have split : takeDigits (digits ++ c :: rest) = (digits, c :: rest) :=
        takeDigits_append decimal digit rest
      have sign : takeSign ((if negative then '-' else '+') :: (digits ++ c :: rest)) =
          ([if negative then '-' else '+'], digits ++ c :: rest) := by
        cases negative <;> rfl
      rw [Numeral.exponentText, List.cons_append, List.cons_append, takeExponent, if_pos (.inl rfl)]
      dsimp only
      rw [sign, split]
      rfl

/-- Behind the digits of a numeral stands no digit and no other point. -/
theorem exponentText_starts (exponent : Option (Bool × List Char)) {c : Char}
    (space : isSpace c = true) (rest : List Char) :
    ∃ d more, Numeral.exponentText exponent ++ c :: rest = d :: more ∧ d.isDigit = false ∧ d ≠ '.' := by
  cases exponent with
  | none => exact ⟨c, rest, rfl, (isSpace_cases space).1, (isSpace_cases space).2.1⟩
  | some pair => exact ⟨'e', _, rfl, by decide, by decide⟩

theorem takeFraction_text (fraction : Option (List Char))
    (decimal : ∀ c ∈ fraction.getD [], c.isDigit = true) {d : Char} (other : d.isDigit = false)
    (point : d ≠ '.') (more : List Char) :
    takeFraction (Numeral.fractionText fraction ++ d :: more) =
      (Numeral.fractionText fraction, d :: more) := by
  cases fraction with
  | none => exact if_neg point
  | some digits =>
      have split : takeDigits (digits ++ d :: more) = (digits, d :: more) :=
        takeDigits_append decimal other more
      rw [Numeral.fractionText, List.cons_append, takeFraction, if_pos rfl, split]

theorem fractionText_starts (fraction : Option (List Char)) {d : Char} (other : d.isDigit = false)
    (more : List Char) :
    ∃ e rest, Numeral.fractionText fraction ++ d :: more = e :: rest ∧ e.isDigit = false := by
  cases fraction with
  | none => exact ⟨d, more, rfl, other⟩
  | some digits => exact ⟨'.', _, rfl, by decide⟩

/-- The numeral is read as a whole. -/
theorem collect_numeral (numeral : Numeral) {c : Char} (space : isSpace c = true)
    (rest : List Char) : collect (numeral.text ++ c :: rest) = (numeral.text, c :: rest) := by
  obtain ⟨negative, whole, fraction, exponent, filled, decimal⟩ := numeral
  have wholes : ∀ c ∈ whole, c.isDigit = true := fun c member => decimal c (by simp [member])
  have fractions : ∀ c ∈ fraction.getD [], c.isDigit = true := fun c member =>
    decimal c (by simp [member])
  have exponents := takeExponent_text exponent (fun c member => decimal c (by simp [member])) space rest
  obtain ⟨d, more, behind, other, point⟩ := exponentText_starts exponent space rest
  have fractional := takeFraction_text fraction fractions other point more
  obtain ⟨e, others, between, different⟩ := fractionText_starts fraction other more
  have digits := takeDigits_append wholes different others
  have sign : takeSign ((if negative then ['-'] else []) ++ (whole ++ e :: others)) =
      (if negative then ['-'] else [], whole ++ e :: others) := by
    cases negative with
    | true => rfl
    | false =>
        cases whole with
        | nil => exact absurd rfl filled
        | cons first whole => exact takeSign_of_digit (wholes first List.mem_cons_self) _
  have whole_text : Numeral.text ⟨negative, whole, fraction, exponent, filled, decimal⟩ ++ c :: rest =
      (if negative then ['-'] else []) ++ (whole ++ e :: others) := by
    rw [Numeral.text, List.append_assoc, behind, List.append_assoc, between, List.append_assoc]
  rw [whole_text, collect, sign]
  dsimp only
  rw [digits]
  dsimp only
  rw [← between, fractional]
  dsimp only
  rw [if_neg fun none => filled (List.append_eq_nil_iff.mp none).1, ← behind, exponents]
  rfl

theorem text_starts (numeral : Numeral) :
    ∃ d ds, numeral.text = d :: ds ∧ isSpace d = false := by
  obtain ⟨negative, whole, fraction, exponent, filled, decimal⟩ := numeral
  cases negative with
  | true => exact ⟨'-', _, rfl, by decide⟩
  | false =>
      cases whole with
      | nil => exact absurd rfl filled
      | cons d ds =>
          exact ⟨d, _, rfl, (isDigit_cases (decimal d (by simp))).1⟩

variable {blanks : List Char}

/-- The value that is stored for a printed finite number. -/
def FloatText.reread : FloatValue F → FloatValue F
  | .finite x => .finite (self.strto (self.format x).text).1
  | other => other

theorem follows_finite (blank : ∀ c ∈ blanks, isSpace c = true) (x : F) :
    Follows (View.scanned self.scan) (blanks ++ self.print (.finite x)) (self.reread (.finite x)) := by
  obtain ⟨d, ds, split, starts⟩ := text_starts (self.format x)
  rw [FloatText.print, split]
  apply follows_word blank starts
  intro c rest space
  rw [← split, FloatText.scan, collect_numeral _ space]
  dsimp only
  rw [self.accepts]
  rfl

/-- A number without digits is not accepted. -/
theorem strto_rejects {text : List Char} (none : ∀ c ∈ text, c.isDigit = false) :
    (self.strto text).2 = false := by
  by_contra accepted
  obtain ⟨c, member, digit⟩ := self.digits text (by simpa using accepted)
  rw [none c member] at digit
  cases digit

/-- A number that starts with a letter is not accepted. -/
theorem jams_letter (blank : ∀ c ∈ blanks, isSpace c = true) (negative : Bool) {first : Char}
    (letter : first = 'i' ∨ first = 'n') (word : List Char) :
    Jams (View.scanned self.scan) (blanks ++ ((if negative then ['-'] else []) ++ first :: word)) := by
  have found : ∀ more : List Char, collect ((if negative then ['-'] else []) ++ first :: more) =
      (if negative then ['-'] else [], first :: more) := by
    intro more
    rcases letter with rfl | rfl <;> cases negative <;> rfl
  have rejected : (self.strto (if negative then ['-'] else [])).2 = false := by
    apply strto_rejects
    cases negative <;> simp
  have stops : ∀ c rest, ∃ value behind,
      self.scan ((if negative then ['-'] else []) ++ first :: word ++ c :: rest) =
        (value, false, behind) ∧ behind ≠ [] := by
    intro c rest
    refine ⟨.finite (self.strto (if negative then ['-'] else [])).1, first :: (word ++ c :: rest), ?_, List.cons_ne_nil _ _⟩
    rw [FloatText.scan, List.append_assoc, List.cons_append, found]
    dsimp only
    rw [rejected]
  cases negative with
  | true => exact jams_word blank (by decide) fun c rest _ => stops c rest
  | false =>
      have starts : isSpace first = false := by rcases letter with rfl | rfl <;> decide
      exact jams_word blank starts fun c rest _ => stops c rest

def FloatValue.IsFinite : FloatValue F → Prop
  | .finite _ => True
  | _ => False

theorem spells_float (blank : ∀ c ∈ blanks, isSpace c = true) (x : FloatValue F) :
    Spells (View.scanned self.scan) (blanks ++ self.print x) x.IsFinite (self.reread x) := by
  cases x with
  | finite x => exact ⟨fun _ => follows_finite self blank x, fun other => absurd trivial other⟩
  | infinite negative =>
      exact ⟨False.elim, fun _ => jams_letter self blank negative (.inl rfl) ['n', 'f']⟩
  | nan negative =>
      exact ⟨False.elim, fun _ => jams_letter self blank negative (.inr rfl) ['a', 'n']⟩

end Floats

end Numbers

end FormattedInput

end CodeCollect.Library
