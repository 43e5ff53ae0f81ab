import CodeCollect.Library.Expansion
import CodeCollect.Log4cxx.Properties

namespace CodeCollect.Log4cxx

namespace LogString

/-- The first place of the pattern in the text. -/
def indexOf (pattern : LogString) : LogString → Option Nat
  | [] => if pattern = [] then some 0 else none
  | c :: text =>
      if pattern.isPrefixOf (c :: text) then some 0 else (indexOf pattern text).map (· + 1)

/-- This is `std::basic_string::find`. -/
def find (text pattern : LogString) (pos : Nat) : Option Nat :=
  (indexOf pattern (text.drop pos)).map (pos + ·)

/-- This is `std::basic_string::substr`. -/
def substr (text : LogString) (pos count : Nat) : LogString := (text.drop pos).take count

theorem indexOf_none {pattern text : LogString} (absent : indexOf pattern text = none) :
    ¬ pattern <:+: text := by
  induction text with
  | nil =>
      rw [indexOf] at absent
      split at absent
      · exact absurd absent (by simp)
      · rwa [List.infix_nil]
  | cons c text ih =>
      rw [indexOf] at absent
      split at absent
      · exact absurd absent (by simp)
      · rename_i elsewhere
        rw [List.infix_cons_iff, ← List.isPrefixOf_iff_prefix]
        exact fun found => found.elim elsewhere (ih (Option.map_eq_none_iff.mp absent))

/-- The text is cut at the first place of the pattern. -/
theorem indexOf_some {pattern text : LogString} {place : Nat} (proper : pattern ≠ [])
    (found : indexOf pattern text = some place) :
    ∃ before after, text = before ++ (pattern ++ after) ∧ before.length = place ∧
      ¬ pattern <:+: before := by
  induction text generalizing place with
  | nil =>
      rw [indexOf, if_neg proper] at found
      exact absurd found (by simp)
  | cons c text ih =>
      rw [indexOf] at found
      split at found
      · rename_i here
        obtain ⟨after, rest⟩ := List.isPrefixOf_iff_prefix.mp here
        refine ⟨[], after, rest.symm, Option.some.inj found, ?_⟩
        rwa [List.infix_nil]
      · rename_i elsewhere
        obtain ⟨later, foundLater, rfl⟩ := Option.map_eq_some_iff.mp found
        obtain ⟨before, after, rfl, rfl, first⟩ := ih foundLater
        refine ⟨c :: before, after, rfl, rfl, fun inside => ?_⟩
        rcases List.infix_cons_iff.mp inside with here | within
        · apply elsewhere
          rw [List.isPrefixOf_iff_prefix]
          exact here.trans ((List.prefix_append _ _).trans (by rw [List.cons_append]))
        · exact first within

end LogString

namespace OptionConverter

open Library LogString

/-- The system properties are given. -/
def getSystemProperty (system : Properties) (key default : LogString) : LogString :=
  if key ≠ [] then
    let value := system.getProperty key
    if value ≠ [] then value else default
  else default

def delimStart : LogString := ['$', '{']

def delimStop : Char := '}'

def DELIM_START_LEN : Nat := 2

def DELIM_STOP_LEN : Nat := 1

/-- This is the message of the `IllegalArgumentException`. -/
def noClosingBrace (val : LogString) (j : Nat) : LogString :=
  '"' :: val ++ "\" has no closing brace. Opening brace at position ".toList ++
    StringHelper.toString j ++ ['.']

/-- The value that a key stands for, before the variables in it are substituted. -/
def lookup (system props : Properties) (key : LogString) : LogString :=
  let replacement := getSystemProperty system key []
  if replacement = [] then props.getProperty key else replacement

/-- An exception of the recursive call is not caught. -/
def unlessThrown (call : Option (Except LogString LogString))
    (next : LogString → Option (Except LogString LogString)) :
    Option (Except LogString LogString) :=
  call.bind fun outcome =>
    match outcome with
    | .error msg => some (.error msg)
    | .ok result => next result

/-- This is the loop of `substVars`, which has come to the index `i`; the loop and the recursion may
take at most `fuel` steps. -/
def substVarsFrom (system props : Properties) :
    Nat → LogString → LogString → Nat → Option (Except LogString LogString)
  | 0, _, _, _ => none
  | fuel + 1, val, sbuf, i =>
      match val.find delimStart i with
      | none =>
          if i = 0 then some (.ok val)
          else some (.ok (sbuf ++ val.substr i (val.length - i)))
      | some j =>
          let sbuf := sbuf ++ val.substr i (j - i)
          match val.find [delimStop] j with
          | none => some (.error (noClosingBrace val j))
          | some k =>
              let key := val.substr (j + DELIM_START_LEN) (k - (j + DELIM_START_LEN))
              let replacement := lookup system props key
              if replacement = [] then substVarsFrom system props fuel val sbuf (k + DELIM_STOP_LEN)
              else
                unlessThrown (substVarsFrom system props fuel replacement [] 0)
                  fun recursiveReplacement =>
                    substVarsFrom system props fuel val (sbuf ++ recursiveReplacement)
                      (k + DELIM_STOP_LEN)

def substVars (system props : Properties) (fuel : Nat) (val : LogString) :
    Option (Except LogString LogString) :=
  substVarsFrom system props fuel val [] 0

/-- A text is read from the left: behind an opening, everything up to the next brace is a key. -/
def read : LogString → Option LogString → LogString → Template Char LogString
  | before, none, [] => .plain before
  | before, none, [c] => .plain (before ++ [c])
  | before, none, c :: d :: text =>
      if [c, d] = delimStart then read before (some []) text else read (before ++ [c]) none (d :: text)
  | before, some key, [] => .broken (before ++ delimStart ++ key)
  | before, some key, c :: text =>
      if c = delimStop then .reference before key (read [] none text)
      else read before (some (key ++ [c])) text

/-- The template whose references are the variables of the text. -/
def template (text : LogString) : Template Char LogString := read [] none text

/-- A key stands for the template of its value. -/
def definition (system props : Properties) (key : LogString) : Template Char LogString :=
  template (lookup system props key)

theorem read_plain {text : LogString} (absent : ¬ delimStart <:+: text) (before : LogString) :
    read before none text = .plain (before ++ text) := by
  induction text generalizing before with
  | nil => rw [read, List.append_nil]
  | cons c text ih =>
      cases text with
      | nil => rw [read]
      | cons d text =>
          have other : [c, d] ≠ delimStart := by
            intro same
            exact absent (same ▸ ⟨[], text, rfl⟩)
          rw [read, if_neg other, ih, List.append_assoc, List.singleton_append]
          exact fun within => absent (List.infix_cons within)

theorem read_opening {text : LogString} (first : ¬ delimStart <:+: text) (before rest : LogString) :
    read before none (text ++ (delimStart ++ rest)) = read (before ++ text) (some []) rest := by
  induction text generalizing before with
  | nil =>
      rw [List.nil_append, List.append_nil]
      exact (read.eq_3 before '$' '{' rest).trans (if_pos rfl)
  | cons c text ih =>
      have later : ¬ delimStart <:+: text := fun within => first (List.infix_cons within)
      have moved := ih later (before ++ [c])
      rw [List.append_assoc, List.singleton_append] at moved
      rw [← moved]
      cases text with
      | nil =>
          have other : [c, '$'] ≠ delimStart := by simp [delimStart]
          exact (read.eq_3 before c '$' ('{' :: rest)).trans (if_neg other)
      | cons d text =>
          have other : [c, d] ≠ delimStart := by
            intro same
            exact first (same ▸ ⟨[], text, rfl⟩)
          exact (read.eq_3 before c d (text ++ (delimStart ++ rest))).trans (if_neg other)

theorem read_closing {text : LogString} (inside : delimStop ∉ text) (before key rest : LogString) :
    read before (some key) (text ++ (delimStop :: rest)) =
      .reference before (key ++ text) (template rest) := by
  induction text generalizing key with
  | nil => rw [List.nil_append, List.append_nil, read, if_pos rfl, template]
  | cons c text ih =>
      have other : c ≠ delimStop := (List.ne_of_not_mem_cons inside).symm
      have later : delimStop ∉ text := List.not_mem_of_not_mem_cons inside
      rw [List.cons_append, read, if_neg other, ih later, List.append_assoc,
        List.singleton_append]

theorem read_unclosed {text : LogString} (unclosed : delimStop ∉ text) (before key : LogString) :
    read before (some key) text = .broken (before ++ delimStart ++ (key ++ text)) := by
  induction text generalizing key with
  | nil => rw [read, List.append_nil]
  | cons c text ih =>
      have other : c ≠ delimStop := (List.ne_of_not_mem_cons unclosed).symm
      have later : delimStop ∉ text := List.not_mem_of_not_mem_cons unclosed
      rw [read, if_neg other, ih later, List.append_assoc key, List.singleton_append]

theorem infix_singleton_iff {c : Char} {text : LogString} : [c] <:+: text ↔ c ∈ text := by
  constructor
  · rintro ⟨before, after, rfl⟩
    simp
  · intro member
    obtain ⟨before, after, rfl⟩ := List.append_of_mem member
    exact ⟨before, after, by simp⟩

theorem find_append (consumed rest pattern : LogString) :
    (consumed ++ rest).find pattern consumed.length =
      (indexOf pattern rest).map (consumed.length + ·) := by
  rw [LogString.find, List.drop_left]

/-- The opening does not hold the brace that closes it. -/
theorem indexOf_opening (text : LogString) :
    indexOf [delimStop] (delimStart ++ text) = (indexOf [delimStop] text).map (2 + ·) := by
  have first : ([delimStop].isPrefixOf ('$' :: '{' :: text)) = false := by
    simp [delimStop, List.isPrefixOf]
  have second : ([delimStop].isPrefixOf ('{' :: text)) = false := by
    simp [delimStop, List.isPrefixOf]
  rw [show delimStart ++ text = '$' :: '{' :: text from rfl, indexOf, first, indexOf, second]
  simp only [Bool.false_eq_true, if_false, Option.map_map]
  congr 1
  funext place
  change place + 1 + 1 = 2 + place
  omega

/-- The code finds the end of the text, a brace that is not closed, or the next variable. -/
theorem scan (consumed rest : LogString) :
    (template rest = .plain rest ∧ (consumed ++ rest).find delimStart consumed.length = none) ∨
    (∃ text j, template rest = .broken text ∧
      (consumed ++ rest).find delimStart consumed.length = some j ∧
      (consumed ++ rest).find [delimStop] j = none) ∨
    ∃ before key more, rest = before ++ (delimStart ++ (key ++ (delimStop :: more))) ∧
      template rest = .reference before key (template more) ∧
      (consumed ++ rest).find delimStart consumed.length = some (consumed ++ before).length ∧
      (consumed ++ rest).find [delimStop] (consumed ++ before).length =
        some (consumed ++ before ++ delimStart ++ key).length := by
  cases opening : indexOf delimStart rest with
  | none =>
      refine .inl ⟨read_plain (indexOf_none opening) [], ?_⟩
      rw [find_append, opening, Option.map_none]
  | some place =>
      obtain ⟨before, after, rfl, rfl, first⟩ := indexOf_some (by decide) opening
      have opened := (find_append consumed _ delimStart).trans (by rw [opening, Option.map_some])
      rw [← List.length_append] at opened
      have closing := find_append (consumed ++ before) (delimStart ++ after) [delimStop]
      rw [List.append_assoc] at closing
      cases closed : indexOf [delimStop] after with
      | none =>
          have inside : delimStop ∉ after := fun member =>
            indexOf_none closed (infix_singleton_iff.mpr member)
          have broken := (read_opening first [] after).trans (read_unclosed inside _ [])
          refine .inr (.inl ⟨_, _, broken, opened, ?_⟩)
          rw [closing, indexOf_opening, closed, Option.map_none, Option.map_none]
      | some place =>
          obtain ⟨key, more, rfl, rfl, shortest⟩ := indexOf_some (by decide) closed
          have inside : delimStop ∉ key := fun member => shortest (infix_singleton_iff.mpr member)
          refine .inr (.inr ⟨before, key, more, rfl, ?_, opened, ?_⟩)
          · exact (read_opening first [] _).trans (read_closing inside _ [] more)
          · rw [closing, indexOf_opening, closed, Option.map_some, Option.map_some]
            simp only [List.length_append, delimStart, List.length_cons, List.length_nil]
            congr 1
            omega

variable {system props : Properties}

/-- At the end of the text what is left of it is appended. -/
theorem substVarsFrom_plain {consumed rest sbuf : LogString}
    (absent : (consumed ++ rest).find delimStart consumed.length = none)
    (fresh : consumed = [] → sbuf = []) (fuel : Nat) :
    substVarsFrom system props (fuel + 1) (consumed ++ rest) sbuf consumed.length =
      some (.ok (sbuf ++ rest)) := by
  rw [substVarsFrom, absent]
  dsimp only
  split
  · rename_i start
    have nothing := List.length_eq_zero_iff.mp start
    rw [fresh nothing, nothing, List.nil_append]
  · rw [substr, List.drop_left, List.length_append, Nat.add_sub_cancel_left, List.take_length]

/-- What the variable stands for is substituted, unless it is empty, and the loop goes on behind
the brace. -/
theorem substVarsFrom_variable {consumed before key more rest : LogString}
    (parts : rest = before ++ (delimStart ++ (key ++ (delimStop :: more))))
    (opened : (consumed ++ rest).find delimStart consumed.length = some (consumed ++ before).length)
    (closed : (consumed ++ rest).find [delimStop] (consumed ++ before).length =
      some (consumed ++ before ++ delimStart ++ key).length) :
    ∃ behind, behind ≠ [] ∧ ∀ system props fuel sbuf,
      substVarsFrom system props (fuel + 1) (consumed ++ rest) sbuf consumed.length =
        if lookup system props key = [] then
          substVarsFrom system props fuel (behind ++ more) (sbuf ++ before) behind.length
        else unlessThrown (substVarsFrom system props fuel (lookup system props key) [] 0)
          fun replacement => substVarsFrom system props fuel (behind ++ more)
            (sbuf ++ before ++ replacement) behind.length := by
  have whole : consumed ++ rest =
      consumed ++ before ++ delimStart ++ key ++ [delimStop] ++ more := by
    rw [parts]
    simp
  refine ⟨consumed ++ before ++ delimStart ++ key ++ [delimStop], by simp, ?_⟩
  intro system props fuel sbuf
  have copied : (consumed ++ rest).substr consumed.length
      ((consumed ++ before).length - consumed.length) = before := by
    rw [substr, List.drop_left, List.length_append, Nat.add_sub_cancel_left, parts,
      List.take_left]
  have named : (consumed ++ rest).substr ((consumed ++ before).length + DELIM_START_LEN)
      ((consumed ++ before ++ delimStart ++ key).length -
        ((consumed ++ before).length + DELIM_START_LEN)) = key := by
    have start : (consumed ++ before).length + DELIM_START_LEN =
        (consumed ++ before ++ delimStart).length := by
      simp [delimStart, DELIM_START_LEN, Nat.add_assoc]
    have split : consumed ++ rest =
        consumed ++ before ++ delimStart ++ (key ++ (delimStop :: more)) := by
      rw [parts]
      simp
    rw [start, split, substr, List.drop_left, List.length_append,
      Nat.add_sub_cancel_left, List.take_left]
  have onward : (consumed ++ before ++ delimStart ++ key).length + DELIM_STOP_LEN =
      (consumed ++ before ++ delimStart ++ key ++ [delimStop]).length := by
    simp [DELIM_STOP_LEN]
    rfl
  rw [substVarsFrom, opened]
  dsimp only
  rw [closed]
  dsimp only
  rw [copied, named, onward, whole]

theorem substVarsFrom_mono {fuel more : Nat} {val sbuf : LogString} {i : Nat}
    {outcome : Except LogString LogString} (enough : fuel ≤ more)
    (ended : substVarsFrom system props fuel val sbuf i = some outcome) :
    substVarsFrom system props more val sbuf i = some outcome := by
  induction fuel generalizing more val sbuf i outcome with
  | zero => exact absurd ended (by simp [substVarsFrom])
  | succ fuel ih =>
      obtain ⟨more, rfl⟩ : ∃ rest, more = rest + 1 := ⟨more - 1, by omega⟩
      have later : ∀ {val sbuf : LogString} {i : Nat} {outcome : Except LogString LogString},
          substVarsFrom system props fuel val sbuf i = some outcome →
            substVarsFrom system props more val sbuf i = some outcome := ih (by omega)
      rw [substVarsFrom] at ended ⊢
      cases opened : val.find delimStart i with
      | none =>
          rw [opened] at ended
          exact ended
      | some j =>
          rw [opened] at ended
          dsimp only at ended ⊢
          cases closed : val.find [delimStop] j with
          | none =>
              rw [closed] at ended
              exact ended
          | some k =>
              rw [closed] at ended
              dsimp only at ended ⊢
              split at ended
              · rename_i empty
                rw [if_pos empty]
                exact later ended
              · rename_i filled
                rw [if_neg filled]
                obtain ⟨inner, called, followed⟩ := Option.bind_eq_some_iff.mp ended
                rw [unlessThrown, later called, Option.bind_some]
                cases inner with
                | error msg => exact followed
                | ok replacement => exact later followed

/-- The loop, started where the rest of the text is left, has this outcome with enough fuel. -/
def Ends (system props : Properties) (consumed rest sbuf : LogString)
    (outcome : Except LogString LogString) : Prop :=
  ∃ fuel, substVarsFrom system props fuel (consumed ++ rest) sbuf consumed.length = some outcome

theorem lookup_nil {key : LogString} (empty : lookup system props key = []) :
    definition system props key = .plain [] := by
  rw [definition, empty]
  rfl

/-- A reference is one round of the loop, which goes on with the rest behind its brace. -/
theorem turn_of_reference {rest before key : LogString} {later : Template Char LogString}
    (reads : template rest = .reference before key later) (consumed : LogString) :
    ∃ behind more, behind ≠ [] ∧ template more = later ∧ ∀ system props fuel sbuf,
      substVarsFrom system props (fuel + 1) (consumed ++ rest) sbuf consumed.length =
        if lookup system props key = [] then
          substVarsFrom system props fuel (behind ++ more) (sbuf ++ before) behind.length
        else unlessThrown (substVarsFrom system props fuel (lookup system props key) [] 0)
          fun replacement => substVarsFrom system props fuel (behind ++ more)
            (sbuf ++ before ++ replacement) behind.length := by
  rcases scan consumed rest with ⟨plain, -⟩ | ⟨_, _, broken, -, -⟩ |
    ⟨_, _, more, parts, refers, opened, closed⟩
  · exact absurd (reads.symm.trans plain) (by simp)
  · exact absurd (reads.symm.trans broken) (by simp)
  · obtain ⟨rfl, rfl, rfl⟩ := Template.reference.inj (reads.symm.trans refers)
    obtain ⟨behind, proper, turn⟩ := substVarsFrom_variable parts opened closed
    exact ⟨behind, more, proper, rfl, turn⟩

/-- The outcome behind a variable whose replacement is found is the outcome with the variable. -/
theorem ends_past {consumed rest before key behind more replacement sbuf : LogString}
    {outcome : Except LogString LogString}
    (turn : ∀ fuel,
      substVarsFrom system props (fuel + 1) (consumed ++ rest) sbuf consumed.length =
        if lookup system props key = [] then
          substVarsFrom system props fuel (behind ++ more) (sbuf ++ before) behind.length
        else unlessThrown (substVarsFrom system props fuel (lookup system props key) [] 0)
          fun replacement => substVarsFrom system props fuel (behind ++ more)
            (sbuf ++ before ++ replacement) behind.length)
    (inner : Template.Expands (definition system props) (definition system props key) replacement)
    (called : Ends system props [] (lookup system props key) [] (.ok ([] ++ replacement)))
    (onward : Ends system props behind more (sbuf ++ before ++ replacement) outcome) :
    Ends system props consumed rest sbuf outcome := by
  obtain ⟨fuel, onward⟩ := onward
  by_cases empty : lookup system props key = []
  · obtain rfl : replacement = [] := inner.unique (lookup_nil empty ▸ .plain [])
    refine ⟨fuel + 1, ?_⟩
    rw [List.append_nil] at onward
    rw [turn, if_pos empty]
    exact onward
  · obtain ⟨fueled, replaced⟩ := called
    refine ⟨max fuel fueled + 1, ?_⟩
    have recursive : substVarsFrom system props (max fuel fueled)
        (lookup system props key) [] 0 = some (.ok replacement) :=
      substVarsFrom_mono (le_max_right fuel fueled) replaced
    rw [turn, if_neg empty, unlessThrown, recursive, Option.bind_some]
    exact substVarsFrom_mono (le_max_left fuel fueled) onward

/-- A template that expands is substituted. -/
theorem ends_of_expands {expanding : Template Char LogString} {result : LogString}
    (expands : Template.Expands (definition system props) expanding result)
    {consumed rest sbuf : LogString} (reads : template rest = expanding)
    (fresh : consumed = [] → sbuf = []) :
    Ends system props consumed rest sbuf (.ok (sbuf ++ result)) := by
  induction expands generalizing consumed rest sbuf with
  | plain text =>
      rcases scan consumed rest with ⟨plain, absent⟩ | ⟨_, _, broken, -, -⟩ |
        ⟨_, _, _, -, refers, -, -⟩
      · obtain rfl := Template.plain.inj (plain.symm.trans reads)
        exact ⟨1, substVarsFrom_plain absent fresh 0⟩
      · exact absurd (reads.symm.trans broken) (by simp)
      · exact absurd (reads.symm.trans refers) (by simp)
  | @reference before replacement result key _ inner later ihInner ihLater =>
      obtain ⟨behind, more, proper, onward, turn⟩ := turn_of_reference reads consumed
      have ended := @ihLater behind more (sbuf ++ before ++ replacement) onward fun nothing =>
        absurd nothing proper
      have regrouped : sbuf ++ (before ++ (replacement ++ result)) =
          sbuf ++ before ++ replacement ++ result := by
        simp only [List.append_assoc]
      rw [regrouped]
      exact ends_past (fun fuel => turn system props fuel sbuf) inner (ihInner rfl fun _ => rfl)
        ended

/-- An unfinished reference that the expansion comes to is reported. -/
theorem ends_of_reaches {expanding last : Template Char LogString} {text : LogString}
    (reaches : Template.Reaches (definition system props) expanding last)
    (unfinished : last = .broken text) {consumed rest sbuf : LogString}
    (reads : template rest = expanding) :
    ∃ msg, Ends system props consumed rest sbuf (.error msg) := by
  induction reaches generalizing consumed rest sbuf with
  | here _ =>
      subst unfinished
      rcases scan consumed rest with ⟨plain, -⟩ | ⟨_, j, -, opened, unclosed⟩ |
        ⟨_, _, _, -, refers, -, -⟩
      · exact absurd (reads.symm.trans plain) (by simp)
      · refine ⟨noClosingBrace (consumed ++ rest) j, 1, ?_⟩
        rw [substVarsFrom, opened]
        dsimp only
        rw [unclosed]
      · exact absurd (reads.symm.trans refers) (by simp)
  | @into before key _ _ within ih =>
      obtain ⟨behind, more, proper, onward, turn⟩ := turn_of_reference reads consumed
      have filled : lookup system props key ≠ [] := by
        intro empty
        rw [lookup_nil empty] at within
        subst unfinished
        cases within
      obtain ⟨msg, fuel, thrown⟩ : ∃ msg fuel,
          substVarsFrom system props fuel (lookup system props key) [] 0 = some (.error msg) :=
        @ih unfinished [] (lookup system props key) [] rfl
      refine ⟨msg, fuel + 1, ?_⟩
      rw [turn, if_neg filled, unlessThrown, thrown, Option.bind_some]
  | @past before replacement key _ _ inner later ih =>
      obtain ⟨behind, more, proper, onward, turn⟩ := turn_of_reference reads consumed
      obtain ⟨msg, thrown⟩ := @ih unfinished behind more (sbuf ++ before ++ replacement) onward
      exact ⟨msg, ends_past (fun fuel => turn system props fuel sbuf) inner
        (ends_of_expands inner rfl fun _ => rfl) thrown⟩

/-- An outcome is the expansion of a template or tells of an unfinished reference. -/
def Explains (system props : Properties) (expanding : Template Char LogString) (sbuf : LogString) :
    Except LogString LogString → Prop
  | .ok result => ∃ expansion,
      Template.Expands (definition system props) expanding expansion ∧ result = sbuf ++ expansion
  | .error _ => ∃ text, Template.Reaches (definition system props) expanding (.broken text)

/-- The outcome of the rest behind a variable is the outcome with the variable. -/
theorem Explains.past {key before replacement sbuf : LogString}
    {rest : Template Char LogString} {outcome : Except LogString LogString}
    (inner : Template.Expands (definition system props) (definition system props key) replacement)
    (later : Explains system props rest (sbuf ++ before ++ replacement) outcome) :
    Explains system props (.reference before key rest) sbuf outcome := by
  cases outcome with
  | error msg =>
      obtain ⟨text, reaches⟩ := later
      exact ⟨text, .past inner reaches⟩
  | ok result =>
      obtain ⟨expansion, expands, rfl⟩ := later
      exact ⟨_, .reference inner expands, by simp only [List.append_assoc]⟩

theorem explains_of_ended {fuel : Nat} {consumed rest sbuf : LogString}
    {outcome : Except LogString LogString} (fresh : consumed = [] → sbuf = [])
    (ended : substVarsFrom system props fuel (consumed ++ rest) sbuf consumed.length =
      some outcome) : Explains system props (template rest) sbuf outcome := by
  induction fuel generalizing consumed rest sbuf outcome with
  | zero => exact absurd ended (by simp [substVarsFrom])
  | succ fuel ih =>
      rcases scan consumed rest with ⟨plain, absent⟩ | ⟨text, j, broken, opened, unclosed⟩ |
        ⟨before, key, more, parts, refers, opened, closed⟩
      · rw [substVarsFrom_plain absent fresh, Option.some.injEq] at ended
        rw [plain, ← ended]
        exact ⟨rest, .plain rest, rfl⟩
      · rw [substVarsFrom, opened] at ended
        dsimp only at ended
        rw [unclosed, Option.some.injEq] at ended
        rw [broken, ← ended]
        exact ⟨text, .here _⟩
      obtain ⟨behind, proper, turn⟩ := substVarsFrom_variable parts opened closed
      rw [turn] at ended
      rw [refers]
      split at ended
      · rename_i empty
        have later := ih (fun nothing => absurd nothing proper) ended
        rw [← List.append_nil (sbuf ++ before)] at later
        exact later.past (lookup_nil empty ▸ .plain [])
      · obtain ⟨inner, called, followed⟩ := Option.bind_eq_some_iff.mp ended
        have explained : Explains system props (definition system props key) [] inner :=
          @ih [] (lookup system props key) [] inner (fun _ => rfl) called
        cases inner with
        | error msg =>
            obtain ⟨text, reaches⟩ := explained
            rw [← Option.some.inj followed]
            exact ⟨text, .into reaches⟩
        | ok replacement =>
            obtain ⟨_, expands, rfl⟩ := explained
            exact (ih (fun nothing => absurd nothing proper) followed).past expands

theorem finite_definitions (system props : Properties) :
    {key | (definition system props key).keys ≠ []}.Finite := by
  have listed : ∀ (map : Properties) key, map.getProperty key ≠ [] → key ∈ map.keys := by
    intro map key valued
    rw [Std.ExtTreeMap.mem_keys, LogMap.mem_iff]
    intro absent
    rw [Properties.getProperty, absent] at valued
    exact valued rfl
  apply (system.keys ++ props.keys).finite_toSet.subset
  intro key refers
  apply List.mem_append.mpr
  by_contra neither
  obtain ⟨unlisted, missing⟩ := not_or.mp neither
  have absent : system.getProperty key = [] := by_contra fun valued => unlisted (listed _ _ valued)
  have undefined : props.getProperty key = [] := by_contra fun valued => missing (listed _ _ valued)
  have empty : lookup system props key = [] := by
    simp [lookup, getSystemProperty, absent, undefined]
  apply refers
  rw [lookup_nil empty, Template.keys]

/-- The text that a template was read from. -/
def text : Template Char LogString → LogString
  | .plain text => text
  | .broken text => text
  | .reference before key rest => before ++ delimStart ++ key ++ [delimStop] ++ text rest

theorem text_read (before : LogString) (key : Option LogString) (rest : LogString) :
    text (read before key rest) =
      before ++ (key.map (delimStart ++ ·)).getD [] ++ rest := by
  fun_induction read before key rest with
  | case1 before => simp [text]
  | case2 before c => simp [text]
  | case3 before c d rest opening ih =>
      rw [ih, ← opening]
      simp
  | case4 before c d rest other ih => simp [ih]
  | case5 before key => simp [text]
  | case6 before key rest ih => simp [text, ih]
  | case7 before key c rest other ih => simp [ih]

/-- Nothing of a text is lost in its template. -/
theorem text_template (val : LogString) : text (template val) = val :=
  text_read [] none val

/-- With acyclic definitions the substitution ends; when the braces of all of them are closed its
result is the expansion; and it throws exactly when the expansion comes to a brace that is not. -/
theorem substVars_expands (system props : Properties) (val : LogString) :
    (Template.Acyclic (definition system props) (template val).keys →
      ∃ fuel outcome, substVars system props fuel val = some outcome) ∧
    (Template.Acyclic (definition system props) (template val).keys →
      (template val).Whole →
      (∀ key, Template.Reachable (definition system props) (template val).keys key →
        (definition system props key).Whole) →
      ∃ result, Template.Expands (definition system props) (template val) result ∧
        ∃ fuel, substVars system props fuel val = some (.ok result)) ∧
    ((∃ fuel msg, substVars system props fuel val = some (.error msg)) ↔
      ∃ text, Template.Reaches (definition system props) (template val) (.broken text)) := by
  have succeeds : ∀ result, Template.Expands (definition system props) (template val) result →
      ∃ fuel, substVars system props fuel val = some (.ok result) := by
    intro result expands
    exact @ends_of_expands system props _ result expands [] val [] rfl fun _ => rfl
  have fails : ∀ text, Template.Reaches (definition system props) (template val) (.broken text) →
      ∃ fuel msg, substVars system props fuel val = some (.error msg) := by
    intro text reaches
    obtain ⟨msg, fuel, thrown⟩ := @ends_of_reaches system props _ _ text reaches rfl [] val [] rfl
    exact ⟨fuel, msg, thrown⟩
  refine ⟨fun acyclic => ?_, fun acyclic whole defined => ?_, ?_, ?_⟩
  · rcases acyclic.ends (finite_definitions system props) with
      ⟨result, expands⟩ | ⟨text, reaches⟩
    · obtain ⟨fuel, ended⟩ := succeeds result expands
      exact ⟨fuel, _, ended⟩
    · obtain ⟨fuel, msg, ended⟩ := fails text reaches
      exact ⟨fuel, _, ended⟩
  · obtain ⟨result, expands⟩ :=
      acyclic.expands (finite_definitions system props) whole defined
    exact ⟨result, expands, succeeds result expands⟩
  · rintro ⟨fuel, msg, thrown⟩
    exact @explains_of_ended system props fuel [] val [] (.error msg) (fun _ => rfl) thrown
  · rintro ⟨text, reaches⟩
    exact fails text reaches

/-- The value of one property holds the other one as a variable. -/
def nested : Properties :=
  (Properties.setProperty ∅ "p1".toList "x1".toList).setProperty "p2".toList "${p1}".toList

theorem nested_expands : ∃ fuel, substVars ∅ nested fuel "${p2}".toList = some (.ok "x1".toList) := by
  have first : definition ∅ nested "p1".toList = .plain "x1".toList := by decide
  have second : definition ∅ nested "p2".toList = .reference [] "p1".toList (.plain []) := by decide
  have read : template "${p2}".toList = .reference [] "p2".toList (.plain []) := by decide
  have last : ∀ other, ¬ Template.Refers (definition ∅ nested) "p1".toList other := by
    intro other refers
    rw [Template.Refers, first] at refers
    exact absurd refers List.not_mem_nil
  have next : ∀ other, Template.Refers (definition ∅ nested) "p2".toList other →
      other = "p1".toList := by
    intro other refers
    rw [Template.Refers, second] at refers
    exact List.mem_singleton.mp refers
  have reached : ∀ key,
      Template.Reachable (definition ∅ nested) (template "${p2}".toList).keys key →
        key = "p2".toList ∨ key = "p1".toList := by
    rintro key ⟨start, member, leads⟩
    rw [read] at member
    obtain rfl := List.mem_singleton.mp member
    rcases leads.cases_head with same | ⟨middle, refers, onward⟩
    · exact .inl same.symm
    · obtain rfl := next middle refers
      rcases onward.cases_head with same | ⟨other, refers, -⟩
      · exact .inr same.symm
      · exact absurd refers (last other)
  have acyclic : Template.Acyclic (definition ∅ nested) (template "${p2}".toList).keys := by
    intro key reachable back
    rcases reached key reachable with rfl | rfl
    · obtain ⟨middle, refers, onward⟩ := Relation.TransGen.head'_iff.mp back
      obtain rfl := next middle refers
      rcases onward.cases_head with same | ⟨other, refers, -⟩
      · exact absurd same (by decide)
      · exact last other refers
    · obtain ⟨middle, refers, -⟩ := Relation.TransGen.head'_iff.mp back
      exact last middle refers
  obtain ⟨result, expands, fuel, ended⟩ := (substVars_expands ∅ nested "${p2}".toList).2.1 acyclic
    (by rw [read]; trivial) (by
      intro key reachable
      rcases reached key reachable with rfl | rfl
      · rw [second]
        trivial
      · rw [first]
        trivial)
  have expansion : Template.Expands (definition ∅ nested) (template "${p2}".toList) "x1".toList := by
    rw [read]
    have inner : Template.Expands (definition ∅ nested) (definition ∅ nested "p1".toList)
        "x1".toList := first ▸ .plain _
    have outer : Template.Expands (definition ∅ nested) (definition ∅ nested "p2".toList)
        "x1".toList := second ▸ .reference inner (.plain [])
    exact .reference outer (.plain [])
  exact ⟨fuel, by rw [ended, expands.unique expansion]⟩

/-- A property whose value is its own variable is substituted for ever. -/
theorem cycle_never_ends : ¬ ∃ fuel outcome,
    substVars ∅ (Properties.setProperty ∅ ['x'] "${x}".toList) fuel "${x}".toList =
      some outcome := by
  rintro ⟨fuel, outcome, ended⟩
  have forever : ∀ fuel, substVarsFrom ∅ (Properties.setProperty ∅ ['x'] "${x}".toList) fuel
      "${x}".toList [] 0 = none := by
    intro fuel
    induction fuel with
    | zero => rfl
    | succ fuel ih =>
        have value : lookup ∅ (Properties.setProperty ∅ ['x'] "${x}".toList) ['x'] =
            "${x}".toList := by decide
        have opened : LogString.find "${x}".toList delimStart 0 = some 0 := by decide
        have closed : LogString.find "${x}".toList [delimStop] 0 = some 3 := by decide
        rw [substVarsFrom, opened]
        dsimp only
        rw [closed]
        dsimp only
        rw [show LogString.substr "${x}".toList (0 + DELIM_START_LEN) (3 - (0 + DELIM_START_LEN)) =
          ['x'] from rfl, value, if_neg (by decide), ih]
        rfl
  exact absurd ((forever fuel).symm.trans ended) (by simp)

end OptionConverter

end CodeCollect.Log4cxx
