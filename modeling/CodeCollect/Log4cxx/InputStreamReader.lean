import CodeCollect.Log4cxx.CharsetEncoder

namespace CodeCollect.Log4cxx

open CodeCollect.Library
open Transcoder (decode decodeError encodeWide WideBuild WellFormed Refused Reads)

/-- The base has `cap` bytes. -/
structure ByteBuffer where
  base : List UInt8
  pos : Nat
  lim : Nat

namespace ByteBuffer

def create (data1 : List UInt8) : ByteBuffer where
  base := data1
  pos := 0
  lim := data1.length

def cap (self : ByteBuffer) : Nat := self.base.length

def clear (self : ByteBuffer) : ByteBuffer := { self with lim := self.cap, pos := 0 }

def flip (self : ByteBuffer) : ByteBuffer := { self with lim := self.pos, pos := 0 }

def position (self : ByteBuffer) (newPosition : Nat) : ByteBuffer :=
  { self with pos := if newPosition < self.lim then newPosition else self.lim }

/-- The overload with an argument does not look at the position. -/
def limit (self : ByteBuffer) (newLimit : Nat) : Option ByteBuffer :=
  if newLimit > self.cap then none else some { self with lim := newLimit }

/-- The difference is a `size_t`, which wraps around. -/
def remaining (self : ByteBuffer) : Nat :=
  if self.pos ≤ self.lim then self.lim - self.pos
  else 0x10000000000000000 - (self.pos - self.lim)

/-- These are the bytes that are left to be read. -/
def current (self : ByteBuffer) : List UInt8 := (self.base.drop self.pos).take self.remaining

/-- Memory is overwritten from a place on. -/
def copy (self : ByteBuffer) (place : Nat) (bytes : List UInt8) : ByteBuffer :=
  { self with base := self.base.take place ++ bytes ++ self.base.drop (place + bytes.length) }

/-- A stream puts the bytes of one call into the buffer. -/
def fill (self : ByteBuffer) (bytes : List UInt8) : ByteBuffer :=
  (self.copy self.pos bytes).position (self.pos + bytes.length)

end ByteBuffer

/-- This is what the decoder appends, whether it fails, and where it leaves the iterator. -/
structure Decoded where
  out : LogChars
  failed : Bool
  rest : List UInt8

namespace UTF8CharsetDecoder

/-- This is the loop over the temporary string. -/
def decodeFrom (build : WideBuild) (tmp : List UInt8) : Decoded :=
  if tmp = [] then ⟨[], false, []⟩
  else if (decode tmp).1 = decodeError then ⟨[], true, (decode tmp).2⟩
  else
    let later := decodeFrom build (decode tmp).2
    ⟨encodeWide build (decode tmp).1 ++ later.out, later.failed, later.rest⟩
termination_by tmp.length
decreasing_by
  rename_i value
  exact (Transcoder.decode_length tmp).2 value

/-- This is the decoder of the builds with wide characters. -/
def decode (build : WideBuild) (input : ByteBuffer) : ByteBuffer × LogChars × Bool :=
  if 0 < input.remaining then
    let tmp := input.current
    let decoded := decodeFrom build tmp
    if decoded.failed then
      (input.position (input.pos + (tmp.length - decoded.rest.length)), decoded.out, true)
    else (input.position input.lim, decoded.out, false)
  else (input, [], false)

end UTF8CharsetDecoder

namespace InputStreamReader

def BUFSIZE : Nat := 4096

/-- The status of the decoder is thrown, a limit may be wrong, and a stream that gives more than
there is room for would overrun the buffer. -/
inductive Fault where
  | ioException
  | illegalArgument
  | overrun
deriving DecidableEq

/-- The rest of the buffer is moved to its start. -/
def compact (buf : ByteBuffer) : Option ByteBuffer :=
  if 0 < buf.remaining then (buf.copy 0 buf.current).limit buf.remaining else some buf.clear

/-- The loop goes on while the stream has another part. -/
def readFrom (build : WideBuild) (buf : ByteBuffer) (output : LogChars) :
    List (List UInt8) → Except Fault LogChars
  | [] => .ok output
  | part :: parts =>
      if buf.remaining < part.length then .error .overrun
      else
        let decoding := UTF8CharsetDecoder.decode build (buf.fill part).flip
        if decoding.2.2 then .error .ioException
        else
          match compact decoding.1 with
          | none => .error .illegalArgument
          | some buf => readFrom build buf (output ++ decoding.2.1) parts

/-- The memory of the buffer comes from a pool, and the stream is known by its parts. -/
def read (build : WideBuild) (memory : List UInt8) (parts : List (List UInt8)) :
    Except Fault LogChars :=
  readFrom build (.create memory) [] parts

section Read

open UTF8CharsetDecoder

variable {build : WideBuild} {buf : ByteBuffer}

/-- The buffer is as large as it was made, and there is nothing in it. -/
structure Cleared (buf : ByteBuffer) : Prop where
  pos : buf.pos = 0
  lim : buf.lim = BUFSIZE
  base : buf.base.length = BUFSIZE

theorem Cleared.remaining (cleared : Cleared buf) : buf.remaining = BUFSIZE := by
  rw [ByteBuffer.remaining, cleared.pos, cleared.lim, if_pos (Nat.zero_le _), Nat.sub_zero]

theorem created (memory : List UInt8) (size : memory.length = BUFSIZE) :
    Cleared (.create memory) where
  pos := rfl
  lim := size
  base := size

/-- One round of the loop decodes one part, and the buffer is empty again. -/
theorem Cleared.readFrom_cons (cleared : Cleared buf) {part : List UInt8}
    (fits : part.length ≤ BUFSIZE) (output : LogChars) (parts : List (List UInt8)) :
    ∃ next, Cleared next ∧ readFrom build buf output (part :: parts) =
      if (decodeFrom build part).failed then .error .ioException
      else readFrom build next (output ++ (decodeFrom build part).out) parts := by
  have size := cleared.base
  have place : (if part.length < BUFSIZE then part.length else BUFSIZE) = part.length := by
    split <;> omega
  have filled : (buf.fill part).flip =
      { base := part ++ buf.base.drop part.length, pos := 0, lim := part.length } := by
    rw [ByteBuffer.fill, ByteBuffer.copy, ByteBuffer.position, ByteBuffer.flip, cleared.pos,
      cleared.lim, Nat.zero_add, List.take_zero, List.nil_append]
    dsimp only
    rw [place]
  have remaining : ((buf.fill part).flip).remaining = part.length := by
    rw [filled, ByteBuffer.remaining, if_pos (Nat.zero_le _), Nat.sub_zero]
  have current : ((buf.fill part).flip).current = part := by
    rw [ByteBuffer.current, remaining, filled]
    dsimp only
    rw [List.drop_zero, List.take_append_of_le_length (le_refl _), List.take_length]
  have length : (part ++ buf.base.drop part.length).length = BUFSIZE := by
    rw [List.length_append, List.length_drop]
    omega
  refine ⟨{ base := part ++ buf.base.drop part.length, pos := 0, lim := BUFSIZE },
    ⟨rfl, rfl, length⟩, ?_⟩
  have emptied : ∀ pos, pos = part.length →
      compact { base := part ++ buf.base.drop part.length, pos := pos, lim := part.length } =
        some { base := part ++ buf.base.drop part.length, pos := 0, lim := BUFSIZE } := by
    rintro _ rfl
    rw [compact, if_neg, ByteBuffer.clear, ByteBuffer.cap]
    · dsimp only
      rw [length]
    · rw [ByteBuffer.remaining, if_pos (le_refl _), Nat.sub_self]
      exact Nat.lt_irrefl 0
  rw [readFrom, cleared.remaining, if_neg (by omega), UTF8CharsetDecoder.decode, remaining,
    current, filled]
  by_cases empty : part = []
  · have zero : part.length = 0 := List.length_eq_zero_iff.mpr empty
    have nothing : decodeFrom build part = ⟨[], false, []⟩ := by rw [decodeFrom, if_pos empty]
    rw [if_neg (show ¬ 0 < part.length by omega), nothing]
    simp only [Bool.false_eq_true, if_false]
    rw [emptied 0 zero.symm]
  · rw [if_pos (List.length_pos_iff.mpr empty)]
    dsimp only
    cases (decodeFrom build part).failed with
    | true => simp only [if_true]
    | false =>
        simp only [Bool.false_eq_true, if_false, ByteBuffer.position, lt_self_iff_false]
        rw [emptied _ rfl]

/-- The loop ends well exactly when no part is refused. -/
theorem Cleared.readFrom_eq_ok_iff {parts : List (List UInt8)} (cleared : Cleared buf)
    (fit : ∀ part ∈ parts, part.length ≤ BUFSIZE) {output result : LogChars} :
    readFrom build buf output parts = .ok result ↔
      (∀ part ∈ parts, (decodeFrom build part).failed = false) ∧
        result = output ++ parts.flatMap fun part => (decodeFrom build part).out := by
  induction parts generalizing buf output with
  | nil =>
      rw [readFrom, List.flatMap_nil, List.append_nil, Except.ok.injEq]
      constructor
      · intro same
        exact ⟨fun _ member => absurd member List.not_mem_nil, same.symm⟩
      · intro both
        exact both.2.symm
  | cons part parts ih =>
      rw [List.forall_mem_cons] at fit
      obtain ⟨next, again, round⟩ := @cleared.readFrom_cons build _ part fit.1 output parts
      rw [round, List.forall_mem_cons, List.flatMap_cons, ← List.append_assoc]
      cases failed : (decodeFrom build part).failed with
      | true =>
          rw [if_pos rfl]
          exact iff_of_false (by simp) fun both => absurd both.1.1 (by decide)
      | false =>
          rw [if_neg Bool.false_ne_true, ih again fit.2, and_assoc]
          exact (and_iff_right rfl).symm

end Read

end InputStreamReader

section Decoding

open UTF8CharsetDecoder

variable {build : WideBuild}

theorem decodeFrom_refused {c : Char} (refused : Refused c) (rest : List UInt8) :
    (decodeFrom build (String.utf8EncodeChar c ++ rest)).failed = true := by
  rcases Transcoder.decode_char c rest with ⟨error, _⟩ | ⟨_, accepted, _⟩
  · rw [decodeFrom, if_neg (by simp [String.utf8EncodeChar_ne_nil]), if_pos error]
  · exact absurd refused accepted

theorem decodeFrom_char {c : Char} (accepted : ¬ Refused c) (rest : List UInt8) :
    decodeFrom build (String.utf8EncodeChar c ++ rest) =
      ⟨encodeWide build c.toNat ++ (decodeFrom build rest).out, (decodeFrom build rest).failed,
        (decodeFrom build rest).rest⟩ := by
  rcases Transcoder.decode_char c rest with ⟨_, refused⟩ | ⟨decoded, _, value⟩
  · exact absurd refused accepted
  · rw [decodeFrom, if_neg (by simp [String.utf8EncodeChar_ne_nil]), decoded, if_neg value]

/-- The decoder goes through characters to the rest, unless it refuses one of them. -/
theorem decodeFrom_chars (chars : List Char) (rest : List UInt8) :
    ((decodeFrom build (chars.flatMap String.utf8EncodeChar ++ rest)).failed = false ↔
      (∀ c ∈ chars, ¬ Refused c) ∧ (decodeFrom build rest).failed = false) ∧
    ((∀ c ∈ chars, ¬ Refused c) →
      (decodeFrom build (chars.flatMap String.utf8EncodeChar ++ rest)).out =
        chars.flatMap (fun c => encodeWide build c.toNat) ++ (decodeFrom build rest).out) := by
  induction chars with
  | nil => simp
  | cons c chars ih =>
      rw [List.flatMap_cons, List.append_assoc, List.forall_mem_cons, List.flatMap_cons,
        List.append_assoc]
      by_cases refused : Refused c
      · rw [decodeFrom_refused refused]
        exact ⟨iff_of_false (by decide) fun both => both.1.1 refused,
          fun accepted => absurd refused accepted.1⟩
      · rw [decodeFrom_char refused, and_assoc]
        refine ⟨ih.1.trans (and_iff_right refused).symm, fun accepted => ?_⟩
        rw [ih.2 accepted.2]

/-- A character that is cut is refused. -/
theorem decodeFrom_piece {piece more : List UInt8} {c : Char} (some : piece ≠ [])
    (missing : more ≠ []) (whole : String.utf8EncodeChar c = piece ++ more) :
    (decodeFrom build piece).failed = true := by
  have error : (decode piece).1 = decodeError := by
    rcases Transcoder.decode_cases piece with stays | ⟨part, sv, rest, rfl, reads, decoded⟩
    · exact congrArg Prod.fst stays
    · have all := reads.decode (rest ++ more)
      rw [← List.append_assoc, ← whole, ← Transcoder.encodeUTF8_eq, ← List.append_nil
        (Transcoder.encodeUTF8 c.toNat), Transcoder.decode_encodeUTF8] at all
      split at all
      · rw [decoded]
        exact (congrArg Prod.fst all).symm
      · have empty := congrArg Prod.snd all
        exact absurd (List.append_eq_nil_iff.mp empty.symm).2 missing
  rw [decodeFrom, if_neg some, if_pos error]

theorem not_wellFormed_piece {piece more : List UInt8} {c : Char} (some : piece ≠ [])
    (missing : more ≠ []) (whole : String.utf8EncodeChar c = piece ++ more) :
    ¬ WellFormed piece := by
  intro formed
  obtain ⟨chars, rfl⟩ := formed
  cases chars with
  | nil => exact some rfl
  | cons first chars =>
      rw [List.flatMap_cons, List.append_assoc, ← List.append_nil (String.utf8EncodeChar c)]
        at whole
      obtain ⟨_, rest⟩ := Transcoder.utf8EncodeChar_inj whole
      exact missing (List.append_eq_nil_iff.mp rest.symm).2

theorem wellFormed_chars_iff (chars : List Char) (rest : List UInt8) :
    WellFormed (chars.flatMap String.utf8EncodeChar ++ rest) ↔ WellFormed rest := by
  induction chars with
  | nil => rfl
  | cons c chars ih => rw [List.flatMap_cons, List.append_assoc, Transcoder.wellFormed_cons_iff, ih]

/-- A part of a well-formed text ends behind a character, or it cuts one. -/
theorem cut_cases {part rest : List UInt8} {chars : List Char}
    (stream : part ++ rest = chars.flatMap String.utf8EncodeChar) :
    ∃ before after, chars = before ++ after ∧
      (part = before.flatMap String.utf8EncodeChar ∧
          rest = after.flatMap String.utf8EncodeChar ∨
        ∃ c piece more, piece ≠ [] ∧ more ≠ [] ∧ String.utf8EncodeChar c = piece ++ more ∧
          part = before.flatMap String.utf8EncodeChar ++ piece) := by
  induction chars generalizing part with
  | nil =>
      obtain ⟨rfl, rfl⟩ := List.append_eq_nil_iff.mp stream
      exact ⟨[], [], rfl, Or.inl ⟨rfl, rfl⟩⟩
  | cons c chars ih =>
      rw [List.flatMap_cons, List.append_eq_append_iff] at stream
      rcases stream with ⟨more, whole, behind⟩ | ⟨onward, rfl, behind⟩
      · by_cases nothing : part = []
        · subst nothing
          refine ⟨[], c :: chars, rfl, Or.inl ⟨rfl, ?_⟩⟩
          rw [behind, List.flatMap_cons, whole, List.nil_append]
        · by_cases all : more = []
          · subst all
            rw [List.append_nil] at whole
            refine ⟨[c], chars, rfl, Or.inl ⟨?_, behind⟩⟩
            rw [List.flatMap_singleton, whole]
          · exact ⟨[], c :: chars, rfl, Or.inr ⟨c, part, more, nothing, all, whole, rfl⟩⟩
      · obtain ⟨before, after, rfl, cases⟩ := ih behind.symm
        refine ⟨c :: before, after, rfl, ?_⟩
        rcases cases with ⟨rfl, rest⟩ | ⟨d, piece, more, some, missing, whole, rfl⟩
        · exact Or.inl ⟨List.flatMap_cons.symm, rest⟩
        · refine Or.inr ⟨d, piece, more, some, missing, whole, ?_⟩
          rw [List.flatMap_cons, List.append_assoc]

/-- The parts are decoded exactly when no character is cut and none is refused. -/
theorem decodeFrom_parts {parts : List (List UInt8)} {chars : List Char}
    (stream : parts.flatten = chars.flatMap String.utf8EncodeChar) :
    ((∀ part ∈ parts, (decodeFrom build part).failed = false) ↔
      (∀ part ∈ parts, WellFormed part) ∧ ∀ c ∈ chars, ¬ Refused c) ∧
    ((∀ part ∈ parts, (decodeFrom build part).failed = false) →
      parts.flatMap (fun part => (decodeFrom build part).out) =
        chars.flatMap fun c => encodeWide build c.toNat) := by
  induction parts generalizing chars with
  | nil =>
      cases chars with
      | nil => simp
      | cons c chars =>
          exact absurd stream.symm (by simp [String.utf8EncodeChar_ne_nil])
  | cons part parts ih =>
      rw [List.flatten_cons] at stream
      rw [List.forall_mem_cons, List.forall_mem_cons, List.flatMap_cons]
      obtain ⟨before, after, rfl, ⟨rfl, onward⟩ | ⟨c, piece, more, some, missing, whole, rfl⟩⟩ :=
        cut_cases stream
      · have finish : decodeFrom build [] = ⟨[], false, []⟩ := by rw [decodeFrom, if_pos rfl]
        obtain ⟨succeeds, out⟩ := @decodeFrom_chars build before []
        rw [List.append_nil, finish] at succeeds out
        obtain ⟨others, rest⟩ := ih onward
        rw [succeeds, others, List.forall_mem_append, List.flatMap_append]
        constructor
        · constructor
          · intro both
            exact ⟨⟨⟨before, rfl⟩, both.2.1⟩, both.1.1, both.2.2⟩
          · intro both
            exact ⟨⟨both.2.1, rfl⟩, both.1.2, both.2.2⟩
        · intro both
          rw [out both.1.1, List.append_nil, rest (others.mpr both.2)]
      · have fails : ¬ (decodeFrom build
            (before.flatMap String.utf8EncodeChar ++ piece)).failed = false := by
          rw [(decodeFrom_chars before piece).1, decodeFrom_piece some missing whole]
          exact fun both => absurd both.2 (by decide)
        have torn : ¬ WellFormed (before.flatMap String.utf8EncodeChar ++ piece) := by
          rw [wellFormed_chars_iff]
          exact not_wellFormed_piece some missing whole
        exact ⟨iff_of_false (fun both => fails both.1) fun both => torn both.1.1,
          fun both => absurd both.1 fails⟩

/-- The encoder for wide characters writes the right low surrogate only for these values. -/
theorem encodeWide_eq_iff (build : WideBuild) (c : Char) :
    encodeWide build c.toNat = build.unitsOf c ↔
      (build = .twoBytes → 0x10000 ≤ c.toNat → c.toNat % 0x400 = 1) := by
  cases build with
  | iso10646 => exact iff_of_true rfl (by simp)
  | fourBytes => exact iff_of_true rfl (by simp)
  | twoBytes =>
      change Transcoder.encodeUTF16 c.toNat = LogChar.unitsOf .utf16 c ↔ _
      rw [Transcoder.encodeUTF16_eq (Transcoder.scalar_bound c), LogChar.unitsOf]
      split
      · exact iff_of_true rfl fun _ high => absurd high (by omega)
      · simp only [List.cons.injEq, and_true, true_and, true_implies]
        omega

theorem encodeWide_length (build : WideBuild) (c : Char) :
    (encodeWide build c.toNat).length = (build.unitsOf c).length := by
  cases build with
  | iso10646 => rfl
  | fourBytes => rfl
  | twoBytes =>
      change (Transcoder.encodeUTF16 c.toNat).length = (LogChar.unitsOf .utf16 c).length
      rw [Transcoder.encodeUTF16_eq (Transcoder.scalar_bound c), LogChar.unitsOf]
      by_cases low : c.toNat < 0x10000
      · rw [if_pos low, if_pos low]
      · rw [if_neg low, if_neg low]
        simp only [List.length_cons]

end Decoding

namespace InputStreamReader

/-- The text is read as it is exactly when no part cuts a character, no value is refused, and
with two bytes the low surrogates are those that the encoder writes. Strings of type `UniChar` are
encoded like wide strings of two bytes. -/
theorem read_iff (build : WideBuild) {memory : List UInt8} (size : memory.length = BUFSIZE)
    {parts : List (List UInt8)} (fit : ∀ part ∈ parts, part.length ≤ BUFSIZE)
    {chars : List Char} (stream : parts.flatten = chars.flatMap String.utf8EncodeChar) :
    read build memory parts = .ok (chars.flatMap build.unitsOf) ↔
      (∀ part ∈ parts, WellFormed part) ∧
        ∀ c ∈ chars, ¬ Refused c ∧
          (build = .twoBytes → 0x10000 ≤ c.toNat → c.toNat % 0x400 = 1) := by
  have cleared := created memory size
  obtain ⟨succeeds, out⟩ := @decodeFrom_parts build parts chars stream
  rw [read, cleared.readFrom_eq_ok_iff fit, List.nil_append, forall₂_and]
  have images : chars.flatMap build.unitsOf = chars.flatMap (fun c => encodeWide build c.toNat) ↔
      ∀ c ∈ chars, build = .twoBytes → 0x10000 ≤ c.toNat → c.toNat % 0x400 = 1 := by
    rw [eq_comm, TextRound.flatMap_eq_iff_of_length_le fun c _ => (encodeWide_length build c).le]
    simp only [encodeWide_eq_iff]
  constructor
  · intro both
    obtain ⟨formed, accepted⟩ := succeeds.mp both.1
    rw [out both.1, images] at both
    exact ⟨formed, accepted, both.2⟩
  · intro all
    have decoded := succeeds.mpr ⟨all.1, all.2.1⟩
    refine ⟨decoded, ?_⟩
    rw [out decoded, images]
    exact all.2.2

/-- Two parts with whole characters are read. -/
theorem read_iff_whole :
    read .iso10646 (List.replicate BUFSIZE 0) [[0x61], [0xC3, 0xA9]] =
        .ok (['a', 'é'].flatMap (WideBuild.unitsOf .iso10646)) ↔
      (∀ part ∈ [[0x61], [0xC3, 0xA9]], WellFormed part) ∧
        ∀ c ∈ ['a', 'é'], ¬ Refused c ∧
          (WideBuild.iso10646 = .twoBytes → 0x10000 ≤ c.toNat → c.toNat % 0x400 = 1) :=
  read_iff .iso10646 List.length_replicate (by decide) (by decide)

/-- A read between the two bytes of U+00E9 is an error. -/
theorem read_cut :
    [[0xC3], [0xA9]].flatten = ['é'].flatMap String.utf8EncodeChar ∧
      read .iso10646 (List.replicate BUFSIZE 0) [[0xC3], [0xA9]] = .error .ioException := by
  refine ⟨by decide, ?_⟩
  have failed : (UTF8CharsetDecoder.decodeFrom .iso10646 [0xC3]).failed = true :=
    decodeFrom_piece (List.cons_ne_nil _ _) (List.cons_ne_nil 0xA9 [])
      (show String.utf8EncodeChar 'é' = [0xC3] ++ [0xA9] by decide)
  obtain ⟨_, _, round⟩ := (created (List.replicate BUFSIZE 0) List.length_replicate).readFrom_cons
    (show [0xC3].length ≤ BUFSIZE by decide) [] [[0xA9]]
  rw [read, round, if_pos failed]

end InputStreamReader

end CodeCollect.Log4cxx
