import CodeCollect.OpenPano.MatchInfoDump

namespace CodeCollect.OpenPano

open CodeCollect.Library CodeCollect.Library.FormattedInput

namespace MatchInfoDump

variable {S D : Type} [Zero D]

section Views

variable [Zero S] (single : FloatText S) (double : FloatText D)

/-- The two indices before a match info. -/
def indices : View (Int × Int) :=
  (View.scanned scanInt).bind fun i => (View.scanned scanInt).bind fun j => View.pure (i, j)

def homography : View (Homography D) :=
  (View.each (fun _ => View.scanned double.scan) (List.finRange 9)).bind fun values =>
    View.pure fun i => values.getD i (.finite 0)

def pcc : View (PCC D) :=
  (View.scanned double.scan).bind fun first_x => (View.scanned double.scan).bind fun first_y =>
    (View.scanned double.scan).bind fun second_x => (View.scanned double.scan).bind fun second_y =>
      View.pure ((first_x, first_y), (second_x, second_y))

/-- The numbers before the number of matches. -/
def header : View (FloatValue S × Homography D) :=
  (View.scanned single.scan).bind fun confidence => (homography double).bind fun homo =>
    View.pure (confidence, homo)

def sized : View (List (PCC D)) :=
  (View.scanned scanInt).bind fun size => View.each (fun _ => pcc double) (List.range size.toNat)

/-- The number of matches and the matches. A negative number gives no match info. -/
def counted (found : FloatValue S × Homography D) : View (Option (MatchInfo S D)) := fun text =>
  if (View.stored scanInt text).any (· < 0) then .next none text
  else (sized double).bind (fun pairs => View.pure (some ⟨pairs, found.1, found.2⟩)) text

def record : View (Option (MatchInfo S D)) := (header single double).bind (counted double)

/-- The text is a sequence of records, which may be cut off anywhere and which a negative number of
matches ends. The indices of the records are those of images. -/
inductive Loadable (n : Nat) : List Char → Prop
  | cut_indices {text : List Char} (cut : indices text = .cut) : Loadable n text
  | threw {text rest behind : List Char} {i j : Int} (found : indices text = .next (i, j) rest)
      (negative : record single double rest = .next none behind) : Loadable n text
  | cut_record {text rest : List Char} {i j : Int} (found : indices text = .next (i, j) rest)
      (row : Inside n i) (column : Inside n j) (cut : record single double rest = .cut) :
      Loadable n text
  | whole {text rest behind : List Char} {i j : Int} {info : MatchInfo S D}
      (found : indices text = .next (i, j) rest) (row : Inside n i) (column : Inside n j)
      (whole : record single double rest = .next (some info) behind)
      (later : Loadable n behind) : Loadable n text

end Views

section Deserialize

variable {single : FloatText S} {double : FloatText D}

/-- The two indices of a pass. -/
def readIndices (i j : Int) : StateM IStream (Int × Int) := do
  let i ← extract scanInt i
  let j ← extract scanInt j
  return (i, j)

theorem readIndices_run (i j : Int) (is : IStream) : readIndices i j is =
    (((extract scanInt i is).1, (extract scanInt j (extract scanInt i is).2).1),
      (extract scanInt j (extract scanInt i is).2).2) := rfl

theorem reads_indices (i j : Int) : Reads (readIndices i j) indices :=
  (Reads.extract scanInt i).bind fun _ => (Reads.extract scanInt j).bind fun _ => .pure _

theorem reads_pcc : Reads (PCC.read double) (pcc double) :=
  (Reads.extract double.scan _).bind fun _ => (Reads.extract double.scan _).bind fun _ =>
    (Reads.extract double.scan _).bind fun _ => (Reads.extract double.scan _).bind fun _ => .pure _

/-- The number of matches and the matches without the check of `resize`. -/
def readSized (double : FloatText D) (match_size : Int) : StateM IStream (List (PCC D)) := do
  let size ← extract scanInt match_size
  (List.range size.toNat).mapM fun _ => PCC.read double

theorem readSized_run (match_size : Int) (is : IStream) : readSized double match_size is =
    ((List.range (extract scanInt match_size is).1.toNat).mapM fun _ => PCC.read double)
      (extract scanInt match_size is).2 := rfl

theorem reads_sized (match_size : Int) : Reads (readSized double match_size) (sized double) :=
  (Reads.extract scanInt match_size).bind fun _ => Reads.each (fun _ => reads_pcc) _

variable {ret : Homography D} {match_size : Int} {text behind : List Char}
  {found : FloatValue S × Homography D} {info : MatchInfo S D}

/-- What is done behind the numbers before the number of matches. -/
def readCounted (double : FloatText D) (found : FloatValue S × Homography D) (match_size : Int)
    (is : IStream) : Option (MatchInfo S D × IStream) :=
  if (extract scanInt match_size is).1 < 0 then none
  else
    some (⟨(readSized double match_size is).1, found.1, found.2⟩, (readSized double match_size is).2)

theorem readCounted_of_nonneg {is : IStream} (size : 0 ≤ (extract scanInt match_size is).1) :
    readCounted double found match_size is =
      some (⟨(readSized double match_size is).1, found.1, found.2⟩,
        (readSized double match_size is).2) := if_neg (Int.not_lt.mpr size)

theorem readCounted_snd {is fin : IStream}
    (read : readCounted double found match_size is = some (info, fin)) :
    fin = (readSized double match_size is).2 := by
  rw [readCounted] at read
  split at read
  · cases read
  · cases read
    rfl

theorem stored_negative : (View.stored scanInt text).any (· < 0) = true ↔
    ∃ size, View.stored scanInt text = some size ∧ size < 0 := by
  cases View.stored scanInt text <;> simp

/-- A number that is stored or was not negative is not negative. -/
theorem stored_nonneg (old : 0 ≤ match_size) (counts : ¬ (View.stored scanInt text).any (· < 0)) :
    0 ≤ (extract scanInt match_size (.ofText text)).1 := by
  rw [Reads.extract_stored]
  cases stored : View.stored scanInt text with
  | none => exact old
  | some size => exact Int.not_lt.mp fun negative => counts (stored_negative.mpr ⟨size, stored, negative⟩)

theorem counted_threw (threw : counted double found text = .next none behind) :
    readCounted double found match_size (.ofText text) = none := by
  rw [counted] at threw
  split at threw
  next negative =>
    obtain ⟨size, stored, negative⟩ := stored_negative.mp negative
    apply if_pos
    rw [Reads.extract_stored, stored]
    exact negative
  · rw [View.bind] at threw
    split at threw <;> cases threw

theorem counted_whole (whole : counted double found text = .next (some info) behind) :
    readCounted double found match_size (.ofText text) = some (info, .ofText behind) := by
  rw [counted] at whole
  split at whole
  · cases whole
  next counts =>
    rw [View.bind] at whole
    split at whole
    · cases whole
    · cases whole
    next pairs more read =>
      cases whole
      have size : 0 ≤ (extract scanInt match_size (.ofText text)).1 := by
        rw [Reads.extract_stored]
        rw [sized, View.bind] at read
        split at read
        · cases read
        · cases read
        next size later number =>
          have stored := View.stored_of_next number
          rw [stored] at counts ⊢
          exact Int.not_lt.mp fun negative => counts (decide_eq_true negative)
      rw [readCounted_of_nonneg size, (reads_sized match_size).next text pairs behind read]

theorem counted_cut (cut : counted double found text = .cut) {fin : IStream}
    (read : readCounted double found match_size (.ofText text) = some (info, fin)) :
    fin.eof = true := by
  rw [readCounted_snd read]
  rw [counted] at cut
  split at cut
  · cases cut
  · rw [View.bind] at cut
    split at cut
    next found => exact (reads_sized match_size).cut text found
    · cases cut
    · cases cut

/-- The number of matches is not negative where the text does not throw. -/
theorem counted_reads (old : 0 ≤ match_size) (counts : ∀ behind, counted double found text ≠ .next none behind) :
    ∃ info fin, readCounted double found match_size (.ofText text) = some (info, fin) := by
  have counts : ¬ (View.stored scanInt text).any (· < 0) = true := fun negative =>
    counts text (if_pos negative)
  exact ⟨_, _, readCounted_of_nonneg (stored_nonneg old counts)⟩

theorem counted_stuck (stuck : counted double found text = .stuck) {fin : IStream}
    (read : readCounted double found match_size (.ofText text) = some (info, fin)) : fin.Stuck := by
  rw [readCounted_snd read]
  rw [counted] at stuck
  split at stuck
  · cases stuck
  · rw [View.bind] at stuck
    split at stuck
    · cases stuck
    next found => exact (reads_sized match_size).stops text found
    · cases stuck

variable [Zero S]

theorem reads_header (ret : Homography D) :
    Reads (MatchInfo.header single double ret) (header single double) :=
  (Reads.extract single.scan _).bind fun _ =>
    ((Reads.each (fun i => Reads.extract double.scan (ret i)) _).bind fun _ => .pure _).bind fun _ =>
      .pure _

theorem deserialize_eq (is : IStream) : MatchInfo.deserialize single double ret match_size is =
    readCounted double (MatchInfo.header single double ret is).1 match_size
      (MatchInfo.header single double ret is).2 := by
  rw [MatchInfo.deserialize, readCounted]
  simp only [readSized_run]

/-- After an error the old number of matches is kept. -/
theorem deserialize_failed (old : 0 ≤ match_size) {is : IStream}
    (failed : (MatchInfo.header single double ret is).2.eof = true ∨
      (MatchInfo.header single double ret is).2.fail = true) :
    ∃ info fin, MatchInfo.deserialize single double ret match_size is = some (info, fin) := by
  have size : 0 ≤ (extract scanInt match_size (MatchInfo.header single double ret is).2).1 := by
    rw [Reads.extract_failed scanInt match_size failed]
    exact old
  exact ⟨_, _, (deserialize_eq is).trans (readCounted_of_nonneg size)⟩

theorem deserialize_snd {is fin : IStream}
    (read : MatchInfo.deserialize single double ret match_size is = some (info, fin)) :
    fin = (readSized double match_size (MatchInfo.header single double ret is).2).2 :=
  readCounted_snd ((deserialize_eq is).symm.trans read)

theorem deserialize_next {rest : List Char} {value : FloatValue S × Homography D}
    (found : header single double text = .next value rest) :
    MatchInfo.deserialize single double ret match_size (.ofText text) =
      readCounted double value match_size (.ofText rest) := by
  rw [deserialize_eq, (reads_header ret).next text value rest found]

theorem deserialize_threw (threw : record single double text = .next none behind) :
    MatchInfo.deserialize single double ret match_size (.ofText text) = none := by
  rw [record, View.bind] at threw
  split at threw
  · cases threw
  · cases threw
  next value rest found =>
    rw [deserialize_next found]
    exact counted_threw threw

theorem deserialize_whole (whole : record single double text = .next (some info) behind) :
    MatchInfo.deserialize single double ret match_size (.ofText text) =
      some (info, .ofText behind) := by
  rw [record, View.bind] at whole
  split at whole
  · cases whole
  · cases whole
  next value rest found =>
    rw [deserialize_next found]
    exact counted_whole whole

theorem deserialize_cut (cut : record single double text = .cut) {fin : IStream}
    (read : MatchInfo.deserialize single double ret match_size (.ofText text) = some (info, fin)) :
    fin.eof = true := by
  rw [record, View.bind] at cut
  split at cut
  next found =>
    rw [deserialize_snd read]
    exact (reads_sized match_size).ended _ ((reads_header ret).cut text found)
  · cases cut
  next value rest found =>
    rw [deserialize_next found] at read
    exact counted_cut cut read

theorem deserialize_stuck (stuck : record single double text = .stuck) {fin : IStream}
    (read : MatchInfo.deserialize single double ret match_size (.ofText text) = some (info, fin)) :
    fin.Stuck := by
  rw [record, View.bind] at stuck
  split at stuck
  · cases stuck
  next found =>
    rw [deserialize_snd read]
    exact (reads_sized match_size).stuck _ ((reads_header ret).stops text found)
  next value rest found =>
    rw [deserialize_next found] at read
    exact counted_stuck stuck read

/-- Only the text and the old number of matches can throw. -/
theorem deserialize_reads (old : 0 ≤ match_size)
    (counts : ∀ behind, record single double text ≠ .next none behind) :
    ∃ info fin, MatchInfo.deserialize single double ret match_size (.ofText text) =
      some (info, fin) := by
  cases found : header single double text with
  | cut => exact deserialize_failed old (.inl ((reads_header ret).cut text found))
  | stuck => exact deserialize_failed old (.inr ((reads_header ret).stops text found).2)
  | next value rest =>
      rw [deserialize_next found]
      apply counted_reads old
      intro behind threw
      apply counts behind
      rw [record, View.bind, found]
      exact threw

end Deserialize

section Loop

variable [Zero S] {single : FloatText S} {double : FloatText D} {n : Nat} {memory : Memory D}
  {text rest behind : List Char} {i j : Int} {info : MatchInfo S D}

/-- The loop writes only with indices of images that were read from the file. -/
def Loaded.Sound (n : Nat) (loaded : Loaded S D) : Prop :=
  ∀ write ∈ loaded.writes, write.read = true ∧ Inside n write.i ∧ Inside n write.j

theorem pass_eq (ret : Homography D) (match_size : Int) (state : Loop S D) :
    pass single double n ret match_size state =
      if (readIndices state.i state.j state.fin).2.eof then
        .inl ⟨.returned, state.pairwise_matches, []⟩
      else
        (MatchInfo.deserialize single double ret match_size
            (readIndices state.i state.j state.fin).2).elim
          (.inl ⟨.threw, state.pairwise_matches, []⟩)
          fun read => store n state (readIndices state.i state.j state.fin).1.1
            (readIndices state.i state.j state.fin).1.2
            (!(readIndices state.i state.j state.fin).2.fail) read.1 read.2 := by
  rw [readIndices_run, pass]

variable {count fuel : Nat} {state after : Loop S D} {loaded : Loaded S D} {entry : Write}

theorem loop_ends
    (ends : pass single double n (memory.homo count) (memory.match_size count) state = .inl loaded) :
    loop single double n memory (fuel + 1) count state = some loaded := by
  rw [loop, ends]

theorem loop_writes (writes : pass single double n (memory.homo count) (memory.match_size count)
      state = .inr (entry, after)) :
    loop single double n memory (fuel + 1) count state =
      (loop single double n memory fuel (count + 1) after).map fun loaded =>
        { loaded with writes := entry :: loaded.writes } := by
  rw [loop, writes]

variable {ret : Homography D} {match_size : Int}

theorem pass_over (eof : state.fin.eof = true) :
    pass single double n ret match_size state = .inl ⟨.returned, state.pairwise_matches, []⟩ := by
  rw [pass_eq, if_pos ((reads_indices state.i state.j).ended _ eof)]

variable {start : Loop S D}

theorem pass_cut (fin : start.fin = .ofText text) (cut : indices text = .cut) :
    pass single double n ret match_size start = .inl ⟨.returned, start.pairwise_matches, []⟩ := by
  rw [pass_eq, fin, if_pos ((reads_indices start.i start.j).cut text cut)]

theorem pass_next (fin : start.fin = .ofText text) (found : indices text = .next (i, j) rest) :
    pass single double n ret match_size start =
      (MatchInfo.deserialize single double ret match_size (.ofText rest)).elim
        (.inl ⟨.threw, start.pairwise_matches, []⟩)
        fun read => store n start i j true read.1 read.2 := by
  rw [pass_eq, fin, (reads_indices start.i start.j).next text (i, j) rest found]
  exact if_neg Bool.false_ne_true

variable (single double n ret match_size) in
/-- A stream that has failed before its end lets the loop write with indices that were not read. -/
theorem pass_stuck (stuck : (readIndices start.i start.j start.fin).2.Stuck) :
    ∃ i j fin, fin.Stuck ∧ pass single double n ret match_size start =
      (MatchInfo.deserialize single double ret match_size fin).elim
        (.inl ⟨.threw, start.pairwise_matches, []⟩)
        fun read => store n start i j false read.1 read.2 := by
  refine ⟨(readIndices start.i start.j start.fin).1.1, (readIndices start.i start.j start.fin).1.2,
    (readIndices start.i start.j start.fin).2, stuck, ?_⟩
  rw [pass_eq, stuck.1, stuck.2]
  exact if_neg Bool.false_ne_true

omit [Zero D] [Zero S] in
theorem store_inside (row : Inside n i) (column : Inside n j) (read : Bool) (info : MatchInfo S D)
    (fin : IStream) : store n start i j read info fin =
      .inr (⟨i, j, read⟩, ⟨i, j, fin, assign start.pairwise_matches i.toNat j.toNat info⟩) :=
  if_pos ⟨row, column⟩

theorem pass_threw (fin : start.fin = .ofText text) (found : indices text = .next (i, j) rest)
    (threw : record single double rest = .next none behind) :
    pass single double n ret match_size start = .inl ⟨.threw, start.pairwise_matches, []⟩ := by
  rw [pass_next fin found, deserialize_threw threw]
  rfl

theorem pass_whole (fin : start.fin = .ofText text) (found : indices text = .next (i, j) rest)
    (row : Inside n i) (column : Inside n j)
    (whole : record single double rest = .next (some info) behind) :
    pass single double n ret match_size start = .inr (⟨i, j, true⟩,
      ⟨i, j, .ofText behind, assign start.pairwise_matches i.toNat j.toNat info⟩) := by
  rw [pass_next fin found, deserialize_whole whole]
  exact store_inside row column ..

omit [Zero D] [Zero S] in
theorem Loaded.Sound.nil (ending : Ending) (pairwise_matches : PairwiseMatches S D) :
    Loaded.Sound n ⟨ending, pairwise_matches, []⟩ := fun _ none => absurd none List.not_mem_nil

omit [Zero D] [Zero S] in
theorem Loaded.Sound.write (sound : loaded.Sound n) (row : Inside n i) (column : Inside n j) :
    Loaded.Sound n { loaded with writes := ⟨i, j, true⟩ :: loaded.writes } := by
  intro write member
  rcases List.mem_cons.mp member with rfl | member
  · exact ⟨rfl, row, column⟩
  · exact sound write member

/-- A file that can be loaded ends the loop. -/
theorem loop_of_loadable (loadable : Loadable single double n text) :
    ∀ count (start : Loop S D), start.fin = .ofText text →
      ∃ fuel loaded, loop single double n memory fuel count start = some loaded ∧ loaded.Sound n := by
  induction loadable with
  | cut_indices cut => exact fun _ _ fin => ⟨1, _, loop_ends (pass_cut fin cut), .nil _ _⟩
  | threw found negative =>
      exact fun _ _ fin => ⟨1, _, loop_ends (pass_threw fin found negative), .nil _ _⟩
  | @cut_record text rest i j found row column cut =>
      intro count start fin
      cases read : MatchInfo.deserialize single double (memory.homo count) (memory.match_size count)
        (.ofText rest) with
      | none =>
          refine ⟨1, _, loop_ends ((pass_next fin found).trans ?_),
            .nil .threw start.pairwise_matches⟩
          rw [read]
          rfl
      | some after =>
          obtain ⟨info, after⟩ := after
          have writes : pass single double n (memory.homo count) (memory.match_size count) start =
              .inr (⟨i, j, true⟩,
                ⟨i, j, after, assign start.pairwise_matches i.toNat j.toNat info⟩) := by
            rw [pass_next fin found, read]
            exact store_inside row column ..
          refine ⟨2, _, ?_, (Loaded.Sound.nil .returned
            (assign start.pairwise_matches i.toNat j.toNat info)).write row column⟩
          rw [loop_writes writes, loop_ends (pass_over (deserialize_cut cut read))]
          rfl
  | @whole text rest behind i j info found row column whole later ih =>
      intro count start fin
      obtain ⟨fuel, loaded, run, sound⟩ := ih (count + 1)
        ⟨i, j, .ofText behind, assign start.pairwise_matches i.toNat j.toNat info⟩ rfl
      refine ⟨fuel + 1, _, ?_, sound.write row column⟩
      rw [loop_writes (pass_whole fin found row column whole), run]
      rfl

/-- The memory holds zeros. -/
def zeros : Memory D := ⟨0, 0, fun _ => 0, fun _ _ => .finite 0, fun _ _ _ => .finite 0⟩

/-- After a failure before the end of the file the loop never returns, and it writes with indices
that were not read. -/
theorem loop_of_stuck {fuel count : Nat} {start : Loop S D} {loaded : Loaded S D}
    (stuck : (readIndices start.i start.j start.fin).2.Stuck) (run : loop single double n zeros fuel count start = some loaded) :
    loaded.ending ≠ .returned ∧ ¬ loaded.Sound n := by
  induction fuel generalizing count start loaded with
  | zero => cases run
  | succ fuel ih =>
      obtain ⟨i, j, fin, failed, step⟩ :=
        pass_stuck single double n ((zeros : Memory D).homo count) ((zeros : Memory D).match_size count)
          stuck
      have header : (MatchInfo.header single double (zeros.homo count) fin).2.Stuck :=
        (reads_header _).stuck fin failed
      obtain ⟨info, after, read⟩ : ∃ info after, MatchInfo.deserialize single double
          ((zeros : Memory D).homo count) ((zeros : Memory D).match_size count) fin =
            some (info, after) :=
        deserialize_failed (Int.le_refl 0) (.inr header.2)
      rw [read] at step
      change _ = store n start i j false info after at step
      by_cases inside : Inside n i ∧ Inside n j
      · rw [store_inside inside.1 inside.2] at step
        rw [loop_writes step] at run
        obtain ⟨later, ran, rfl⟩ := Option.map_eq_some_iff.mp run
        have again : after.Stuck := by
          rw [deserialize_snd read]
          exact (reads_sized _).stuck _ header
        refine ⟨(ih ((reads_indices i j).stuck after again) ran).1, fun sound => ?_⟩
        have unread := (sound ⟨i, j, false⟩ List.mem_cons_self).1
        cases unread
      · rw [store, if_neg inside] at step
        rw [loop_ends step] at run
        cases run
        refine ⟨nofun, fun sound => ?_⟩
        have unread := (sound ⟨i, j, false⟩ List.mem_cons_self).1
        cases unread

/-- Where the indices are those of an image, the loop of a stream that has failed goes on forever. -/
theorem loop_of_failed {fuel count : Nat} {start : Loop S D} (row : Inside n start.i)
    (column : Inside n start.j) (failed : start.fin.Stuck) :
    loop single double n zeros fuel count start = none := by
  induction fuel generalizing count start with
  | zero => rfl
  | succ fuel ih =>
      have indices : (readIndices start.i start.j start.fin).1 = (start.i, start.j) := by
        rw [readIndices_run, Reads.extract_failed scanInt start.i (.inr failed.2),
          Reads.extract_failed scanInt start.j
            (.inr ((Reads.extract scanInt start.i).stuck start.fin failed).2)]
      have stuck := (reads_indices start.i start.j).stuck start.fin failed
      have header : (MatchInfo.header single double ((zeros : Memory D).homo count)
          (readIndices start.i start.j start.fin).2).2.Stuck := (reads_header _).stuck _ stuck
      obtain ⟨info, after, read⟩ : ∃ info after, MatchInfo.deserialize single double
          ((zeros : Memory D).homo count) ((zeros : Memory D).match_size count)
            (readIndices start.i start.j start.fin).2 = some (info, after) :=
        deserialize_failed (Int.le_refl 0) (.inr header.2)
      have again : after.Stuck := by
        rw [deserialize_snd read]
        exact (reads_sized _).stuck _ header
      have step : pass single double n ((zeros : Memory D).homo count)
          ((zeros : Memory D).match_size count) start = .inr (⟨start.i, start.j, false⟩,
            ⟨start.i, start.j, after,
              assign start.pairwise_matches start.i.toNat start.j.toNat info⟩) := by
        rw [pass_eq, stuck.1, if_neg Bool.false_ne_true, read, indices, stuck.2]
        exact store_inside row column ..
      have rest : loop single double n zeros fuel (count + 1) ⟨start.i, start.j, after,
          assign start.pairwise_matches start.i.toNat start.j.toNat info⟩ = none :=
        ih row column again
      rw [loop_writes step, rest]
      rfl

/-- A match info that gets stuck keeps the loop from returning, too. -/
theorem loop_of_jammed {fuel count : Nat} {start : Loop S D} {loaded : Loaded S D}
    (fin : start.fin = .ofText text) (found : indices text = .next (i, j) rest)
    (row : Inside n i) (column : Inside n j) (stuck : record single double rest = .stuck)
    (run : loop single double n zeros (fuel + 1) count start = some loaded) :
    loaded.ending ≠ .returned ∧ ¬ loaded.Sound n := by
  obtain ⟨info, after, read⟩ : ∃ info after, MatchInfo.deserialize single double
      ((zeros : Memory D).homo count) ((zeros : Memory D).match_size count) (.ofText rest) =
        some (info, after) :=
    deserialize_reads (Int.le_refl 0) fun behind threw => by
      rw [stuck] at threw
      cases threw
  have step : pass single double n ((zeros : Memory D).homo count)
      ((zeros : Memory D).match_size count) start = .inr (⟨i, j, true⟩,
        ⟨i, j, after, assign start.pairwise_matches i.toNat j.toNat info⟩) := by
    rw [pass_next fin found, read]
    exact store_inside row column ..
  rw [loop_writes step] at run
  obtain ⟨later, ran, rfl⟩ := Option.map_eq_some_iff.mp run
  obtain ⟨ending, unsound⟩ :=
    loop_of_stuck ((reads_indices i j).stuck after (deserialize_stuck stuck read)) ran
  exact ⟨ending, fun sound => unsound fun entry member => sound entry (.tail _ member)⟩

/-- A loop that ends has loaded its file. -/
theorem loadable_of_loop {fuel count : Nat} {start : Loop S D} {loaded : Loaded S D}
    (fin : start.fin = .ofText text)
    (run : loop single double n zeros fuel count start = some loaded) (sound : loaded.Sound n) :
    Loadable single double n text := by
  induction fuel generalizing count start loaded text with
  | zero => cases run
  | succ fuel ih =>
      cases found : indices text with
      | cut => exact .cut_indices found
      | stuck =>
          have stuck := (reads_indices start.i start.j).stops text found
          rw [← fin] at stuck
          exact absurd sound (loop_of_stuck stuck run).2
      | next value rest =>
          obtain ⟨i, j⟩ := value
          by_cases negative : ∃ behind, record single double rest = .next none behind
          · obtain ⟨behind, negative⟩ := negative
            exact .threw found negative
          · obtain ⟨info, after, read⟩ : ∃ info after, MatchInfo.deserialize single double
                ((zeros : Memory D).homo count) ((zeros : Memory D).match_size count) (.ofText rest) =
                  some (info, after) :=
              deserialize_reads (Int.le_refl 0) fun behind threw => negative ⟨behind, threw⟩
            have step : pass single double n ((zeros : Memory D).homo count)
                ((zeros : Memory D).match_size count) start = store n start i j true info after := by
              rw [pass_next fin found, read]
              rfl
            by_cases inside : Inside n i ∧ Inside n j
            · cases result : record single double rest with
              | cut => exact .cut_record found inside.1 inside.2 result
              | stuck =>
                  exact absurd sound (loop_of_jammed fin found inside.1 inside.2 result run).2
              | next value behind =>
                  cases value with
                  | none => exact absurd ⟨behind, result⟩ negative
                  | some whole =>
                      rw [deserialize_whole result] at read
                      cases read
                      rw [store_inside inside.1 inside.2] at step
                      rw [loop_writes step] at run
                      obtain ⟨later, ran, rfl⟩ := Option.map_eq_some_iff.mp run
                      have sound : later.Sound n := fun entry member => sound entry (.tail _ member)
                      exact .whole found inside.1 inside.2 result (ih rfl ran sound)
            · rw [store, if_neg inside] at step
              rw [loop_ends step] at run
              cases run
              exact absurd (sound ⟨i, j, true⟩ List.mem_cons_self).2 inside

/-- The loading of a file always ends and writes only what it should. -/
def Loads (single : FloatText S) (double : FloatText D) (n : Nat) (file : Option (List Char)) : Prop :=
  ∀ memory, ∃ fuel loaded, load_matchinfo single double n memory fuel file = some loaded ∧
    loaded.Sound n

theorem loads_iff_loadable (n : Nat) (file : Option (List Char)) :
    Loads single double n file ↔ ∃ text, file = some text ∧ Loadable single double n text := by
  constructor
  · intro loads
    obtain ⟨fuel, loaded, run, sound⟩ := loads zeros
    cases file with
    | none =>
        have stuck : IStream.Stuck ⟨[], false, true⟩ := ⟨rfl, rfl⟩
        exact absurd sound (loop_of_stuck ((reads_indices _ _).stuck _ stuck) run).2
    | some text => exact ⟨text, rfl, loadable_of_loop rfl run sound⟩
  · rintro ⟨text, rfl, loadable⟩ memory
    exact loop_of_loadable loadable 0 _ rfl

end Loop

end MatchInfoDump

end CodeCollect.OpenPano
