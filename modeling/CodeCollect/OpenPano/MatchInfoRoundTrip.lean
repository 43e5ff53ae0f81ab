import CodeCollect.OpenPano.MatchInfoLoad

namespace CodeCollect.OpenPano

open CodeCollect.Library CodeCollect.Library.FormattedInput

namespace MatchInfoDump

variable {S D : Type} (single : FloatText S) (double : FloatText D)

section Texts

/-- A number behind a blank. -/
def behindBlank (x : FloatValue D) : List Char := ' ' :: double.print x

theorem spaced_behindBlank (x : FloatValue D) : Spaced (behindBlank double x) := by
  rintro _ ⟨⟩
  rfl

theorem spaced_behindBlank_append (x : FloatValue D) (rest : List Char) :
    Spaced (behindBlank double x ++ rest) := by
  rintro _ ⟨⟩
  rfl

theorem blank_blank : ∀ c ∈ [' '], isSpace c = true := List.forall_mem_singleton.mpr rfl

theorem blank_newline : ∀ c ∈ ['\n'], isSpace c = true := List.forall_mem_singleton.mpr rfl

theorem spells_behindBlank (x : FloatValue D) : Spells (View.scanned double.scan)
    (behindBlank double x) x.IsFinite (double.reread x) := by
  exact spells_float double blank_blank x

/-- The value that is stored for a printed match. -/
def PCC.reread (p : PCC D) : PCC D :=
  ((double.reread p.1.1, double.reread p.1.2), (double.reread p.2.1, double.reread p.2.2))

theorem spells_pcc (p : PCC D) : Spells (pcc double) (p.numbers.flatMap (behindBlank double))
    (∀ x ∈ p.numbers, x.IsFinite) (p.reread double) := by
  have chain : Spells (pcc double) (behindBlank double p.1.1 ++ (behindBlank double p.1.2 ++
      (behindBlank double p.2.1 ++ (behindBlank double p.2.2 ++ []))))
      (p.1.1.IsFinite ∧ p.1.2.IsFinite ∧ p.2.1.IsFinite ∧ p.2.2.IsFinite ∧ True) (p.reread double) :=
    (spells_behindBlank double p.1.1).bind ((spells_behindBlank double p.1.2).bind
      ((spells_behindBlank double p.2.1).bind ((spells_behindBlank double p.2.2).bind (.pure _) .nil)
        (spaced_behindBlank_append double _ _)) (spaced_behindBlank_append double _ _)) (spaced_behindBlank_append double _ _)
  simpa [PCC.numbers] using chain

theorem spaced_numbers (xs : List (FloatValue D)) : Spaced (xs.flatMap (behindBlank double)) :=
  .flatMap (spaced_behindBlank double) xs

theorem spells_homography [Zero D] (homo : Homography D) : Spells (homography double)
    ((List.finRange 9).flatMap fun i => behindBlank double (homo i)) (∀ i, (homo i).IsFinite)
    fun i => double.reread (homo i) := by
  have values : Spells (homography double)
      (((List.finRange 9).flatMap fun i => behindBlank double (homo i)) ++ [])
      ((∀ i ∈ List.finRange 9, (homo i).IsFinite) ∧ True)
      fun i => ((List.finRange 9).map fun i => double.reread (homo i)).getD i (.finite 0) :=
    (Spells.each (fun i => spaced_behindBlank double (homo i)) (List.finRange 9)
      fun i => spells_behindBlank double (homo i)).bind (.pure _) .nil
  have same : (fun i : Fin 9 => ((List.finRange 9).map fun i => double.reread (homo i)).getD i
      (.finite 0)) = fun i => double.reread (homo i) := by
    funext i
    simp
  rw [same] at values
  simpa using values

/-- The value that is stored for a printed match info. -/
def MatchInfo.reread (m : MatchInfo S D) : MatchInfo S D :=
  ⟨m.pairs.map (PCC.reread double), single.reread m.confidence, fun i => double.reread (m.homo i)⟩

/-- The numbers of a match info can be read again. -/
structure Storable (m : MatchInfo S D) : Prop where
  confidence : m.confidence.IsFinite
  homo : ∀ i, (m.homo i).IsFinite
  size : (m.pairs.length : Int) ≤ INT_MAX
  pairs : ∀ p ∈ m.pairs, ∀ x ∈ p.numbers, x.IsFinite

def pairsText (pairs : List (PCC D)) : List Char :=
  pairs.flatMap fun p => p.numbers.flatMap (behindBlank double)

theorem spaced_pairsText (pairs : List (PCC D)) : Spaced (pairsText double pairs) := by
  rw [pairsText]
  exact .flatMap (fun p => spaced_numbers double p.numbers) pairs

/-- The number of matches behind a blank, and the matches. -/
def countedText (pairs : List (PCC D)) : List Char :=
  [' '] ++ Nat.toDigits 10 pairs.length ++ pairsText double pairs

theorem spells_sized (pairs : List (PCC D)) : Spells (sized double) (countedText double pairs)
    ((pairs.length : Int) ≤ INT_MAX ∧ ∀ p ∈ pairs, ∀ x ∈ p.numbers, x.IsFinite)
    (pairs.map (PCC.reread double)) := by
  have each := Spells.each (fun p : PCC D => spaced_numbers double p.numbers) pairs
    (spells_pcc double)
  have lengths : pairs.length = (List.range pairs.length).length := List.length_range.symm
  rw [each_const (pcc double) lengths] at each
  have negative : INT_MIN ≤ 0 := by decide
  exact (spells_nat negative pairs.length blank_blank).bind each (spaced_pairsText double pairs)

/-- The printed number of matches is not negative. -/
theorem counted_text (found : FloatValue S × Homography D) (pairs : List (PCC D)) {c : Char}
    (space : isSpace c = true) (rest : List Char) :
    counted double found (countedText double pairs ++ c :: rest) =
      ((sized double).bind fun pairs => View.pure (some ⟨pairs, found.1, found.2⟩))
        (countedText double pairs ++ c :: rest) := by
  obtain ⟨d, more, split, spaceToo⟩ := (spaced_pairsText double pairs).starts space rest
  have positive : 0 ≤ INT_MAX := by decide
  obtain ⟨size, stored, nonneg⟩ := stored_nat INT_MIN positive pairs.length blank_blank spaceToo more
  apply if_neg
  intro negative
  obtain ⟨other, found, less⟩ := stored_negative.mp negative
  rw [countedText, List.append_assoc, split, scanInt, stored] at found
  cases found
  omega

theorem spells_counted (found : FloatValue S × Homography D) (pairs : List (PCC D)) :
    Spells (counted double found) (countedText double pairs)
      ((pairs.length : Int) ≤ INT_MAX ∧ ∀ p ∈ pairs, ∀ x ∈ p.numbers, x.IsFinite)
      (some ⟨pairs.map (PCC.reread double), found.1, found.2⟩) := by
  have spells : Spells
      ((sized double).bind fun pairs => View.pure (some (⟨pairs, found.1, found.2⟩ : MatchInfo S D)))
      (countedText double pairs ++ [])
      (((pairs.length : Int) ≤ INT_MAX ∧ ∀ p ∈ pairs, ∀ x ∈ p.numbers, x.IsFinite) ∧ True)
      (some ⟨pairs.map (PCC.reread double), found.1, found.2⟩) :=
    (spells_sized double pairs).bind (.pure _) .nil
  rw [List.append_nil, and_true] at spells
  constructor
  · intro storable c rest space
    rw [counted_text double found pairs space]
    exact spells.follows storable c rest space
  · intro bad c rest space
    rw [counted_text double found pairs space]
    exact spells.jams bad c rest space

/-- A blank behind each item is a blank before each item. -/
theorem blanks_turn {Item : Type} (text : Item → List Char) (items : List Item) :
    [' '] ++ items.flatMap (fun item => text item ++ [' ']) =
      items.flatMap (fun item => ' ' :: text item) ++ [' '] := by
  induction items with
  | nil => rfl
  | cons item items ih =>
      rw [List.flatMap_cons, List.flatMap_cons, List.append_assoc (text item), ih]
      simp

theorem homography_text (homo : Homography D) : [' '] ++ homo.serialize double =
    (List.finRange 9).flatMap fun i => behindBlank double (homo i) := by
  have split : List.finRange 9 = (List.finRange 8).map Fin.castSucc ++ [Fin.last 8] :=
    List.finRange_succ_last
  rw [Homography.serialize, ← List.append_assoc, blanks_turn, split, List.flatMap_append,
    List.flatMap_map, List.append_assoc, List.flatMap_singleton]
  rfl

theorem serialize_text (m : MatchInfo S D) : MatchInfo.serialize single double m =
    single.print m.confidence ++
      (((List.finRange 9).flatMap fun i => behindBlank double (m.homo i)) ++
        countedText double m.pairs) := by
  rw [← homography_text, MatchInfo.serialize, countedText]
  simp only [List.append_assoc]
  rfl

variable [Zero D]

theorem spells_header {blanks : List Char} (blank : ∀ c ∈ blanks, isSpace c = true)
    (m : MatchInfo S D) : Spells (header single double)
      (blanks ++ single.print m.confidence ++
        ((List.finRange 9).flatMap fun i => behindBlank double (m.homo i)))
      (m.confidence.IsFinite ∧ ∀ i, (m.homo i).IsFinite)
      (single.reread m.confidence, fun i => double.reread (m.homo i)) := by
  have spaced : Spaced ((List.finRange 9).flatMap fun i => behindBlank double (m.homo i)) :=
    .flatMap (fun i => spaced_behindBlank double (m.homo i)) _
  have homo : Spells ((homography double).bind fun homo =>
        View.pure (single.reread m.confidence, homo))
      (((List.finRange 9).flatMap fun i => behindBlank double (m.homo i)) ++ [])
      ((∀ i, (m.homo i).IsFinite) ∧ True)
      (single.reread m.confidence, fun i => double.reread (m.homo i)) :=
    (spells_homography double m.homo).bind (.pure _) .nil
  rw [List.append_nil, and_true] at homo
  exact (spells_float single blank m.confidence).bind homo spaced

/-- The text of a match info behind white space. -/
theorem spells_record {blanks : List Char} (blank : ∀ c ∈ blanks, isSpace c = true)
    (m : MatchInfo S D) : Spells (record single double)
      (blanks ++ MatchInfo.serialize single double m) (Storable m) (some (m.reread single double)) := by
  have spaced : Spaced (countedText double m.pairs) := by
    rintro _ ⟨⟩
    rfl
  have spells : Spells (record single double) _ _ (some (m.reread single double)) :=
    (spells_header single double blank m).bind (spells_counted double _ m.pairs) spaced
  have storable : Storable m ↔ (m.confidence.IsFinite ∧ ∀ i, (m.homo i).IsFinite) ∧
      (m.pairs.length : Int) ≤ INT_MAX ∧ ∀ p ∈ m.pairs, ∀ x ∈ p.numbers, x.IsFinite :=
    ⟨fun ⟨confidence, homo, size, pairs⟩ => ⟨⟨confidence, homo⟩, size, pairs⟩,
      fun ⟨⟨confidence, homo⟩, size, pairs⟩ => ⟨confidence, homo, size, pairs⟩⟩
  rw [serialize_text, storable, ← List.append_assoc, ← List.append_assoc]
  exact spells

theorem follows_indices {blanks : List Char} (blank : ∀ c ∈ blanks, isSpace c = true) {i j : Nat}
    (row : (i : Int) ≤ INT_MAX) (column : (j : Int) ≤ INT_MAX) :
    Follows indices (blanks ++ Nat.toDigits 10 i ++ ([' '] ++ Nat.toDigits 10 j)) ((i : Int), (j : Int)) := by
  have negative : INT_MIN ≤ 0 := by decide
  have second : Follows ((View.scanned scanInt).bind fun j => View.pure ((i : Int), j))
      (([' '] ++ Nat.toDigits 10 j) ++ []) ((i : Int), (j : Int)) :=
    (follows_nat negative column blank_blank).bind (.pure _) .nil
  rw [List.append_nil] at second
  refine (follows_nat negative row blank).bind second ?_
  rintro _ ⟨⟩
  rfl

end Texts

section RoundTrip

variable [Zero S] [LinearOrder S] {n : Nat} {pairwise_matches : PairwiseMatches S D}

/-- What `dump_matchinfo` writes for one entry. -/
def entryText (pairwise_matches : PairwiseMatches S D) (cell : Nat × Nat) : List Char :=
  let m := pairwise_matches cell.1 cell.2
  if nonpositive m.confidence then []
  else Nat.toDigits 10 cell.1 ++ [' '] ++ Nat.toDigits 10 cell.2 ++ ['\n'] ++
    MatchInfo.serialize single double m ++ ['\n']

theorem dump_matchinfo_eq (n : Nat) (pairwise_matches : PairwiseMatches S D) :
    dump_matchinfo single double n pairwise_matches =
      (Sweep.grid n n).flatMap (entryText single double pairwise_matches) := rfl

variable {single double} {cell : Nat × Nat} {cells : List (Nat × Nat)}

theorem entryText_skip (skipped : nonpositive (pairwise_matches cell.1 cell.2).confidence = true) :
    entryText single double pairwise_matches cell = [] := if_pos skipped

theorem entryText_dumped
    (dumped : nonpositive (pairwise_matches cell.1 cell.2).confidence = false) (rest : List Char) :
    entryText single double pairwise_matches cell ++ rest =
      Nat.toDigits 10 cell.1 ++ ([' '] ++ Nat.toDigits 10 cell.2) ++
        '\n' :: (MatchInfo.serialize single double (pairwise_matches cell.1 cell.2) ++
          '\n' :: rest) := by
  rw [entryText, if_neg (by rw [dumped]; decide)]
  simp only [List.append_assoc, List.cons_append, List.nil_append]

variable {blanks : List Char}

variable (single double) in
/-- The indices of an entry that is dumped are read first. -/
theorem dumped_indices (images : (n : Int) ≤ INT_MAX) (row : cell.1 < n) (column : cell.2 < n)
    (blank : ∀ c ∈ blanks, isSpace c = true)
    (dumped : nonpositive (pairwise_matches cell.1 cell.2).confidence = false) (rest : List Char) :
    indices (blanks ++ (entryText single double pairwise_matches cell ++ rest)) =
      .next ((cell.1 : Int), (cell.2 : Int))
        (['\n'] ++ MatchInfo.serialize single double (pairwise_matches cell.1 cell.2) ++
          '\n' :: rest) := by
  have rows : (cell.1 : Int) ≤ INT_MAX := by omega
  have columns : (cell.2 : Int) ≤ INT_MAX := by omega
  have follows := follows_indices blank rows columns '\n'
    (MatchInfo.serialize single double (pairwise_matches cell.1 cell.2) ++ '\n' :: rest) rfl
  rw [entryText_dumped dumped]
  simp only [List.append_assoc] at follows ⊢
  exact follows

theorem inside_cell {i : Nat} (less : i < n) : Inside n i :=
  ⟨Int.natCast_nonneg i, Int.ofNat_lt.mpr less⟩

/-- The entries of the cells have been loaded, and the other ones are as before. -/
def Restored (single : FloatText S) (double : FloatText D) (pairwise_matches : PairwiseMatches S D)
    (cells : List (Nat × Nat)) (before : PairwiseMatches S D) (loaded : Loaded S D) : Prop :=
  loaded.ending = .returned ∧ ∀ i j, loaded.pairwise_matches i j =
    if (i, j) ∈ cells ∧ nonpositive (pairwise_matches i j).confidence = false then
      (pairwise_matches i j).reread single double
    else before i j

theorem Restored.skip {before : PairwiseMatches S D} {loaded : Loaded S D}
    (restored : Restored single double pairwise_matches cells before loaded)
    (skipped : nonpositive (pairwise_matches cell.1 cell.2).confidence = true) :
    Restored single double pairwise_matches (cell :: cells) before loaded := by
  refine ⟨restored.1, fun i j => (restored.2 i j).trans ?_⟩
  congr 1
  rw [List.mem_cons, eq_iff_iff]
  constructor
  · exact fun ⟨member, keeps⟩ => ⟨.inr member, keeps⟩
  · rintro ⟨rfl | member, keeps⟩
    · rw [skipped] at keeps
      cases keeps
    · exact ⟨member, keeps⟩

theorem Restored.cons {before : PairwiseMatches S D} {loaded : Loaded S D}
    (restored : Restored single double pairwise_matches cells
      (assign before cell.1 cell.2 ((pairwise_matches cell.1 cell.2).reread single double)) loaded)
    (dumped : nonpositive (pairwise_matches cell.1 cell.2).confidence = false) :
    Restored single double pairwise_matches (cell :: cells) before loaded := by
  refine ⟨restored.1, fun i j => (restored.2 i j).trans ?_⟩
  by_cases later : (i, j) ∈ cells ∧ nonpositive (pairwise_matches i j).confidence = false
  · rw [if_pos later, if_pos ⟨.tail _ later.1, later.2⟩]
  · rw [if_neg later, assign]
    by_cases same : (i, j) = cell
    · subst same
      rw [if_pos ⟨List.mem_cons_self, dumped⟩, Function.update_self, Function.update_self]
    · rw [if_neg fun both => later ⟨(List.mem_cons.mp both.1).resolve_left same, both.2⟩]
      by_cases row : i = cell.1
      · rw [row, Function.update_self, Function.update_of_ne fun column =>
          same (Prod.ext row column)]
      · rw [Function.update_of_ne row]

variable [Zero D] {memory : Memory D} {count fuel : Nat} {start : Loop S D}

/-- Entries that can be stored are loaded again, and the other ones keep what they have. -/
theorem loop_dump (images : (n : Int) ≤ INT_MAX)
    (inside : ∀ cell ∈ cells, cell.1 < n ∧ cell.2 < n)
    (storable : ∀ cell ∈ cells, nonpositive (pairwise_matches cell.1 cell.2).confidence = false →
      Storable (pairwise_matches cell.1 cell.2))
    (blank : ∀ c ∈ blanks, isSpace c = true)
    (fin : start.fin = .ofText (blanks ++ cells.flatMap (entryText single double pairwise_matches))) :
    ∃ fuel loaded, loop single double n memory fuel count start = some loaded ∧
      Restored single double pairwise_matches cells start.pairwise_matches loaded := by
  induction cells generalizing count start blanks with
  | nil =>
      rw [List.flatMap_nil, List.append_nil] at fin
      have cut : indices blanks = .cut := by
        rw [indices, View.bind, scanned_blank blank]
      exact ⟨1, _, loop_ends (pass_cut fin cut), rfl, fun i j => (if_neg fun both => by
        cases both.1).symm⟩
  | cons cell cells ih =>
      have insides : ∀ cell ∈ cells, cell.1 < n ∧ cell.2 < n := fun cell member =>
        inside cell (.tail _ member)
      have storables : ∀ cell ∈ cells,
          nonpositive (pairwise_matches cell.1 cell.2).confidence = false →
            Storable (pairwise_matches cell.1 cell.2) := fun cell member =>
        storable cell (.tail _ member)
      rw [List.flatMap_cons] at fin
      cases dumped : nonpositive (pairwise_matches cell.1 cell.2).confidence with
      | true =>
          rw [entryText_skip dumped, List.nil_append] at fin
          obtain ⟨fuel, loaded, run, restored⟩ := ih insides storables blank fin
          exact ⟨fuel, loaded, run, restored.skip dumped⟩
      | false =>
          obtain ⟨row, column⟩ := inside cell List.mem_cons_self
          have found := dumped_indices single double images row column blank dumped
            (cells.flatMap (entryText single double pairwise_matches))
          have whole := (spells_record single double blank_newline (pairwise_matches cell.1 cell.2)).follows
            (storable cell List.mem_cons_self dumped) '\n'
            (cells.flatMap (entryText single double pairwise_matches)) rfl
          obtain ⟨fuel, loaded, run, restored⟩ : ∃ fuel loaded,
              loop single double n memory fuel (count + 1) ⟨cell.1, cell.2,
                .ofText (['\n'] ++ cells.flatMap (entryText single double pairwise_matches)),
                assign start.pairwise_matches cell.1 cell.2
                  ((pairwise_matches cell.1 cell.2).reread single double)⟩ = some loaded ∧
              Restored single double pairwise_matches cells (assign start.pairwise_matches cell.1
                cell.2 ((pairwise_matches cell.1 cell.2).reread single double)) loaded :=
            ih insides storables blank_newline rfl
          refine ⟨fuel + 1, { loaded with writes := ⟨cell.1, cell.2, true⟩ :: loaded.writes }, ?_,
            Restored.cons restored dumped⟩
          rw [loop_writes (pass_whole fin found (inside_cell row) (inside_cell column) whole)]
          exact congrArg (Option.map _) run

/-- An entry that cannot be stored keeps the loop from returning. -/
theorem loop_jams (images : (n : Int) ≤ INT_MAX)
    (inside : ∀ cell ∈ cells, cell.1 < n ∧ cell.2 < n)
    (bad : ∃ cell ∈ cells, nonpositive (pairwise_matches cell.1 cell.2).confidence = false ∧
      ¬ Storable (pairwise_matches cell.1 cell.2))
    (blank : ∀ c ∈ blanks, isSpace c = true)
    (fin : start.fin = .ofText (blanks ++ cells.flatMap (entryText single double pairwise_matches)))
    {loaded : Loaded S D} (run : loop single double n zeros fuel count start = some loaded) :
    loaded.ending ≠ .returned := by
  induction cells generalizing fuel count start blanks loaded with
  | nil =>
      obtain ⟨cell, none, -⟩ := bad
      cases none
  | cons cell cells ih =>
      have insides : ∀ cell ∈ cells, cell.1 < n ∧ cell.2 < n := fun cell member =>
        inside cell (.tail _ member)
      have later : nonpositive (pairwise_matches cell.1 cell.2).confidence = true ∨
          Storable (pairwise_matches cell.1 cell.2) →
          ∃ cell ∈ cells, nonpositive (pairwise_matches cell.1 cell.2).confidence = false ∧
            ¬ Storable (pairwise_matches cell.1 cell.2) := by
        intro good
        obtain ⟨other, member, dumped, unstorable⟩ := bad
        rcases List.mem_cons.mp member with rfl | member
        · rcases good with skipped | storable
          · rw [dumped] at skipped
            cases skipped
          · exact absurd storable unstorable
        · exact ⟨other, member, dumped, unstorable⟩
      rw [List.flatMap_cons] at fin
      cases dumped : nonpositive (pairwise_matches cell.1 cell.2).confidence with
      | true =>
          rw [entryText_skip dumped, List.nil_append] at fin
          exact ih insides (later (.inl dumped)) blank fin run
      | false =>
          obtain ⟨row, column⟩ := inside cell List.mem_cons_self
          have found := dumped_indices single double images row column blank dumped
            (cells.flatMap (entryText single double pairwise_matches))
          have spells := spells_record single double blank_newline (pairwise_matches cell.1 cell.2)
          cases fuel with
          | zero => cases run
          | succ fuel =>
              by_cases storable : Storable (pairwise_matches cell.1 cell.2)
              · have whole := spells.follows storable '\n'
                  (cells.flatMap (entryText single double pairwise_matches)) rfl
                rw [loop_writes (pass_whole fin found (inside_cell row) (inside_cell column) whole)]
                  at run
                obtain ⟨rest, ran, rfl⟩ := Option.map_eq_some_iff.mp run
                have again : loop single double n zeros fuel (count + 1) ⟨cell.1, cell.2,
                    .ofText (['\n'] ++ cells.flatMap (entryText single double pairwise_matches)),
                    assign start.pairwise_matches cell.1 cell.2
                      ((pairwise_matches cell.1 cell.2).reread single double)⟩ = some rest := ran
                have result : rest.ending ≠ .returned :=
                  ih insides (later (.inr storable)) blank_newline rfl again
                exact result
              · have jams := spells.jams storable '\n'
                  (cells.flatMap (entryText single double pairwise_matches)) rfl
                exact (loop_of_jammed fin found (inside_cell row) (inside_cell column) jams run).1

/-- What is loaded from a dump has the entries of positive confidence, whose matches are as many as
before, and the other entries are those of new vectors. -/
def Restores (single : FloatText S) (double : FloatText D) (n : Nat)
    (pairwise_matches : PairwiseMatches S D) : Prop :=
  ∀ memory, ∃ fuel loaded,
    load_matchinfo single double n memory fuel
      (some (dump_matchinfo single double n pairwise_matches)) = some loaded ∧
    loaded.ending = .returned ∧ ∀ i < n, ∀ j < n,
      (positive (pairwise_matches i j).confidence = true →
        loaded.pairwise_matches i j = (pairwise_matches i j).reread single double ∧
          (loaded.pairwise_matches i j).pairs.length = (pairwise_matches i j).pairs.length) ∧
      (positive (pairwise_matches i j).confidence = false →
        loaded.pairwise_matches i j = freshMatches memory i j)

/-- A finite confidence is positive or it is not. -/
theorem positive_of_finite {confidence : FloatValue S} (finite : confidence.IsFinite) :
    positive confidence = !nonpositive confidence := by
  cases confidence with
  | finite x =>
      rw [positive, nonpositive, ← decide_not]
      exact decide_eq_decide.mpr not_le.symm
  | infinite negative => cases finite
  | nan negative => cases finite

theorem positive_of_nonpositive {confidence : FloatValue S}
    (nonpos : nonpositive confidence = true) : positive confidence = false := by
  cases confidence with
  | finite x => simpa [positive, nonpositive] using nonpos
  | infinite negative => simpa [positive, nonpositive] using nonpos
  | nan negative => rfl

theorem restores_iff (images : (n : Int) ≤ INT_MAX) :
    Restores single double n pairwise_matches ↔ ∀ i < n, ∀ j < n,
      nonpositive (pairwise_matches i j).confidence = false → Storable (pairwise_matches i j) := by
  have inside : ∀ cell ∈ Sweep.grid n n, cell.1 < n ∧ cell.2 < n := fun cell member =>
    Sweep.mem_grid.mp member
  have blank : ∀ c ∈ ([] : List Char), isSpace c = true := fun _ none => by cases none
  constructor
  · intro restores i row j column dumped
    by_contra unstorable
    obtain ⟨fuel, loaded, run, returned, -⟩ := restores zeros
    exact loop_jams images inside ⟨(i, j), Sweep.mem_grid.mpr ⟨row, column⟩, dumped, unstorable⟩ blank
      rfl run returned
  · intro storable memory
    obtain ⟨fuel, loaded, run, returned, entries⟩ : ∃ fuel loaded,
        load_matchinfo single double n memory fuel
          (some (dump_matchinfo single double n pairwise_matches)) = some loaded ∧
        Restored single double pairwise_matches (Sweep.grid n n) (freshMatches memory) loaded :=
      loop_dump images inside (fun cell member dumped => storable cell.1 (inside cell member).1 cell.2
        (inside cell member).2 dumped) blank rfl
    refine ⟨fuel, loaded, run, returned, fun i row j column => ?_⟩
    have member : (i, j) ∈ Sweep.grid n n := Sweep.mem_grid.mpr ⟨row, column⟩
    have entry := entries i j
    cases dumped : nonpositive (pairwise_matches i j).confidence with
    | true =>
        rw [if_neg fun both => by rw [dumped] at both; cases both.2] at entry
        refine ⟨fun positive => ?_, fun _ => entry⟩
        rw [positive_of_nonpositive dumped] at positive
        cases positive
    | false =>
        have confident := positive_of_finite (storable i row j column dumped).confidence
        rw [dumped] at confident
        rw [if_pos ⟨member, dumped⟩] at entry
        refine ⟨fun _ => ⟨entry, ?_⟩, fun negative => ?_⟩
        · rw [entry]
          exact List.length_map ..
        · rw [confident] at negative
          cases negative

/-- Loading ends properly for the files that consist of records, and a dump is restored if the
numbers of the entries with confidence are finite and the numbers of their matches are small. -/
theorem load_matchinfo_iff (single : FloatText S) (double : FloatText D) (n : Nat)
    (images : (n : Int) ≤ INT_MAX) :
    (∀ file, Loads single double n file ↔
        ∃ text, file = some text ∧ Loadable single double n text) ∧
      ∀ pairwise_matches : PairwiseMatches S D,
        Restores single double n pairwise_matches ↔ ∀ i < n, ∀ j < n,
          nonpositive (pairwise_matches i j).confidence = false → Storable (pairwise_matches i j) :=
  ⟨loads_iff_loadable n, fun _ => restores_iff images⟩

end RoundTrip

section Examples

/-- A whole number is written with its sign and its digits. -/
def wholeNumeral (x : Int) : Numeral where
  negative := x < 0
  whole := Nat.toDigits 10 x.natAbs
  fraction := none
  exponent := none
  filled := Nat.toDigits_ne_nil
  decimal c member := by
    have digit : c ∈ Nat.toDigits 10 x.natAbs := by simpa using member
    exact Nat.isDigit_of_mem_toDigits (by decide) (by decide) digit

def wholeValue (text : List Char) : Int × Bool :=
  let body := (signed text).2
  let size : Int := Nat.ofDigitChars 10 body 0
  (if (signed text).1 then -size else size, body ≠ [] ∧ body.all Char.isDigit)

theorem signed_subset (text : List Char) : (signed text).2 ⊆ text := by
  rw [signed.eq_def]
  split
  · exact List.subset_cons_self ..
  · exact List.subset_cons_self ..
  · exact List.Subset.refl _

def wholeNumbers : FloatText Int where
  format := wholeNumeral
  strto := wholeValue
  accepts x := by
    have decimal : ∀ c ∈ Nat.toDigits 10 x.natAbs, c.isDigit = true := fun c member =>
      Nat.isDigit_of_mem_toDigits (by decide) (by decide) member
    have body : (signed (wholeNumeral x).text).2 = Nat.toDigits 10 x.natAbs := by
      have text : (wholeNumeral x).text =
          (if x < 0 then ['-'] else []) ++ (Nat.toDigits 10 x.natAbs ++ []) := by
        simp [Numeral.text, wholeNumeral, Numeral.fractionText, Numeral.exponentText]
      rw [text]
      split
      · exact List.append_nil _
      · rw [List.nil_append, signed_toDigits]
        exact List.append_nil _
    rw [wholeValue, body]
    exact decide_eq_true ⟨Nat.toDigits_ne_nil, List.all_eq_true.mpr decimal⟩
  digits text accepted := by
    obtain ⟨filled, decimal⟩ := of_decide_eq_true accepted
    obtain ⟨c, member⟩ := List.exists_mem_of_ne_nil _ filled
    exact ⟨c, signed_subset text member, List.all_eq_true.mp decimal c member⟩

/-- The entry of the first two images has one match. -/
def oneMatch : PairwiseMatches Int Int := fun i j =>
  ⟨[((.finite 1, .finite 2), (.finite 3, .finite (-4)))],
    if i = 0 ∧ j = 1 then .finite 7 else .finite 0, fun _ => .finite 1⟩

theorem load_matchinfo_oneMatch : Restores wholeNumbers wholeNumbers 2 oneMatch := by
  refine ((load_matchinfo_iff wholeNumbers wholeNumbers 2 (by decide)).2 oneMatch).mpr ?_
  intro i _ j _ _
  have one : ((1 : Nat) : Int) ≤ INT_MAX := by decide
  refine ⟨?_, fun _ => trivial, one, ?_⟩
  · rw [oneMatch]
    dsimp only
    split <;> trivial
  · intro p member x number
    obtain rfl := List.mem_singleton.mp member
    simp only [PCC.numbers, List.mem_cons, List.not_mem_nil, or_false] at number
    rcases number with rfl | rfl | rfl | rfl <;> trivial

/-- A file that cannot be opened is loaded forever. -/
theorem unopened_never_loaded :
    ¬ ∃ fuel, (load_matchinfo wholeNumbers wholeNumbers 2 zeros fuel none).isSome = true := by
  rintro ⟨fuel, loaded⟩
  have unloaded : load_matchinfo wholeNumbers wholeNumbers 2 zeros fuel none = none :=
    loop_of_failed (by decide) (by decide) ⟨rfl, rfl⟩
  rw [unloaded] at loaded
  contradiction

end Examples

end MatchInfoDump

end CodeCollect.OpenPano
