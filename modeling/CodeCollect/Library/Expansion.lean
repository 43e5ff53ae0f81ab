import Mathlib

namespace CodeCollect.Library

/-- A template is a text with references to keys; a broken one ends in an unfinished reference. -/
inductive Template (Letter Key : Type*) where
  | plain (text : List Letter)
  | broken (text : List Letter)
  | reference (before : List Letter) (key : Key) (rest : Template Letter Key)
  deriving DecidableEq

namespace Template

variable {Letter Key : Type*}

/-- The keys that a template refers to. -/
def keys : Template Letter Key → List Key
  | plain _ => []
  | broken _ => []
  | reference _ key rest => key :: rest.keys

/-- All references of the template are finished. -/
def Whole : Template Letter Key → Prop
  | plain _ => True
  | broken _ => False
  | reference _ _ rest => rest.Whole

variable (definition : Key → Template Letter Key)

/-- In the expansion of a template the expanded definition of each key stands in its place. -/
inductive Expands : Template Letter Key → List Letter → Prop
  | plain (text : List Letter) : Expands (plain text) text
  | reference {before replacement result : List Letter} {key : Key} {rest : Template Letter Key} :
      Expands (definition key) replacement → Expands rest result →
        Expands (reference before key rest) (before ++ (replacement ++ result))

/-- The expansion comes to a template, which is the rest of one that is expanded. -/
inductive Reaches : Template Letter Key → Template Letter Key → Prop
  | here (template : Template Letter Key) : Reaches template template
  | into {before : List Letter} {key : Key} {rest other : Template Letter Key} :
      Reaches (definition key) other → Reaches (reference before key rest) other
  | past {before replacement : List Letter} {key : Key} {rest other : Template Letter Key} :
      Expands definition (definition key) replacement → Reaches rest other →
        Reaches (reference before key rest) other

/-- The definition of the one key refers to the other one. -/
def Refers (key other : Key) : Prop := other ∈ (definition key).keys

/-- The definitions that are reached from these keys. -/
def Reachable (keys : List Key) (other : Key) : Prop :=
  ∃ key ∈ keys, Relation.ReflTransGen (Refers definition) key other

/-- No definition that is reached from these keys leads back to itself. -/
def Acyclic (keys : List Key) : Prop :=
  ∀ other, Reachable definition keys other → ¬ Relation.TransGen (Refers definition) other other

variable {definition}

theorem Expands.unique {template : Template Letter Key} {result other : List Letter}
    (expands : Expands definition template result) (again : Expands definition template other) :
    result = other := by
  induction expands generalizing other with
  | plain text =>
      cases again
      rfl
  | reference inner rest ihInner ihRest =>
      cases again with
      | reference inner' rest' => rw [ihInner inner', ihRest rest']

/-- Where only finitely many definitions refer to others, no chain of references from a key goes on
for ever unless it leads back. -/
theorem Acyclic.acc (finite : {key | (definition key).keys ≠ []}.Finite) {keys : List Key}
    (acyclic : Acyclic definition keys) {key : Key} (reached : Reachable definition keys key) :
    Acc (fun other key => Refers definition key other) key := by
  -- On the keys that refer to others the references are well founded, and the others end a chain.
  let Referring := {key // (definition key).keys ≠ [] ∧ Reachable definition keys key}
  have : Finite Referring := (finite.subset fun _ within => within.1).to_subtype
  let above : Referring → Referring → Prop := fun other key =>
    Relation.TransGen (Refers definition) key.1 other.1
  have : IsTrans Referring above := ⟨fun _ _ _ first second => second.trans first⟩
  have : Std.Irrefl above := ⟨fun key => acyclic key.1 key.2.2⟩
  have wellFounded : WellFounded above := Finite.wellFounded_of_trans_of_irrefl above
  have referring : ∀ key : Referring, Acc (fun other key => Refers definition key other) key.1 := by
    intro key
    induction key using wellFounded.induction with
    | _ key ih =>
        constructor
        intro other refers
        by_cases last : (definition other).keys = []
        · constructor
          intro next impossible
          rw [Refers, last] at impossible
          exact absurd impossible List.not_mem_nil
        · obtain ⟨start, member, leads⟩ := key.2.2
          exact ih ⟨other, last, start, member, leads.tail refers⟩ (.single refers)
  by_cases last : (definition key).keys = []
  · constructor
    intro next impossible
    rw [Refers, last] at impossible
    exact absurd impossible List.not_mem_nil
  · exact referring ⟨key, last, reached⟩

/-- A template whose keys end all chains of references expands or comes to an unfinished one. -/
theorem ends_of_acc {template : Template Letter Key}
    (acc : ∀ key ∈ template.keys, (∃ result, Expands definition (definition key) result) ∨
      ∃ text, Reaches definition (definition key) (broken text)) :
    (∃ result, Expands definition template result) ∨
      ∃ text, Reaches definition template (broken text) := by
  induction template with
  | plain text => exact .inl ⟨text, .plain text⟩
  | broken text => exact .inr ⟨text, .here _⟩
  | reference before key rest ih =>
      rcases acc key List.mem_cons_self with ⟨replacement, inner⟩ | ⟨text, within⟩
      · rcases ih fun other member => acc other (List.mem_cons_of_mem key member) with
          ⟨result, later⟩ | ⟨text, later⟩
        · exact .inl ⟨_, .reference inner later⟩
        · exact .inr ⟨text, .past inner later⟩
      · exact .inr ⟨text, .into within⟩

/-- A template with acyclic definitions expands or comes to an unfinished reference. -/
theorem Acyclic.ends (finite : {key | (definition key).keys ≠ []}.Finite)
    {template : Template Letter Key} (acyclic : Acyclic definition template.keys) :
    (∃ result, Expands definition template result) ∨
      ∃ text, Reaches definition template (broken text) := by
  apply ends_of_acc
  intro key member
  have acc := acyclic.acc finite ⟨key, member, .refl⟩
  clear member
  induction acc with
  | intro key _ ih => exact ends_of_acc ih

/-- A template comes to the rests of whole templates only, when all it reaches are whole. -/
theorem Reaches.whole {template other : Template Letter Key}
    (reaches : Reaches definition template other) (whole : template.Whole)
    (defined : ∀ key, Reachable definition template.keys key → (definition key).Whole) :
    other.Whole := by
  induction reaches with
  | here template => exact whole
  | @into before key rest other within ih =>
      apply ih (defined key ⟨key, List.mem_cons_self, .refl⟩)
      rintro next ⟨start, member, leads⟩
      exact defined next ⟨key, List.mem_cons_self, leads.head member⟩
  | @past before replacement key rest other expands later ih =>
      apply ih whole
      rintro next ⟨start, member, leads⟩
      exact defined next ⟨start, List.mem_cons_of_mem key member, leads⟩

/-- A whole template with acyclic and whole definitions expands. -/
theorem Acyclic.expands (finite : {key | (definition key).keys ≠ []}.Finite)
    {template : Template Letter Key} (acyclic : Acyclic definition template.keys)
    (whole : template.Whole)
    (defined : ∀ key, Reachable definition template.keys key → (definition key).Whole) :
    ∃ result, Expands definition template result := by
  rcases acyclic.ends finite with expands | ⟨text, reaches⟩
  · exact expands
  · exact absurd (reaches.whole whole defined) id

end Template

end CodeCollect.Library
