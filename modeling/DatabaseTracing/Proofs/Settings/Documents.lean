import DatabaseTracing.Proofs.Json.Passing
import DatabaseTracing.Settings.Reader

/-! # What a document is read as

A document is read member by member: each is added to the draft, if it can be, and the first that
cannot be is a fault. The layout of the text plays no part in this.
-/
namespace DatabaseTracing.Settings
open Scanner JsonText
variable {α β : Type} {t rest rest' : List Char} {v : Tree} {ms : List (String × Tree)}

/-- A reader's result where a value is to be read from, or none of the right type. -/
inductive Yields (rest : List Char) : Except Fault (α × List Char) → Option α → Prop
  | value {a : α} {b : List Char} (hb : Blanks b) : Yields rest (.ok (a, b ++ rest)) (some a)
  | fault (f : Fault) : Yields rest (.error f) none

theorem Yields.map {r : Except Fault (α × List Char)} {o : Option α} (h : Yields rest r o)
    (g : α → β) : Yields rest (r.map fun p => (g p.1, p.2)) (o.map g) := by
  cases h with
  | value hb => exact .value hb
  | fault f => exact .fault f

theorem Yields.bind {r : Except Fault (α × List Char)} {o : Option α} (h : Yields rest r o)
    {k : α × List Char → Except Fault (β × List Char)} {p : α → Option β}
    (hk : ∀ a b, Blanks b → Yields rest' (k (a, b ++ rest)) (p a)) :
    Yields rest' (r.bind k) (o.bind p) := by
  cases h with
  | value hb => exact hk _ _ hb
  | fault f => exact .fault f

theorem Yields.trim {b : List Char} {r : Except Fault (α × List Char)} {o : Option α}
    (h : Yields (b ++ rest) r o) (hb : Blanks b) : Yields rest r o := by
  cases h with
  | @value a b' hb' =>
    rw [← List.append_assoc]
    exact .value fun c hc => (List.mem_append.mp hc).elim (hb' c) (hb c)
  | fault f => exact .fault f

/-! ## Values of fields -/

theorem readBool_yields (h : SpellsElement t v) (rest : List Char) :
    Yields rest (readBool (t ++ rest)) v.bool? := by
  obtain ⟨c, u, b, hv, hb, hstart⟩ := h.start
  rw [readBool, hstart]
  cases hv with
  | boolTrue | boolFalse => exact .value hb
  | number hn =>
    have hopeners := hn.head_not_mem
    simp only [bind, Except.bind]
    split
    · exact absurd (by decide) hopeners
    · exact absurd (by decide) hopeners
    · exact .fault _
  | string hs =>
    obtain ⟨rfl, -⟩ := hs.of_cons
    exact .fault _
  | _ => exact .fault _

theorem readText_yields (h : SpellsElement t v) (rest : List Char) :
    Yields rest (readText (t ++ rest)) v.text? := by
  obtain ⟨c, u, b, hv, hb, hstart⟩ := h.start
  rw [readText, hstart]
  cases hv with
  | number hn =>
    have hopeners := hn.head_not_mem
    simp only [bind, Except.bind]
    split
    · exact absurd (by decide) hopeners
    · exact .fault _
  | string hs =>
    obtain ⟨rfl, hbody⟩ := hs.of_cons
    change Yields rest (Scanner.string (u ++ (b ++ rest))) _
    rw [(hbody _).1]
    exact .value hb
  | _ => exact .fault _

/-! ## Members, one after another -/

/-- `go` reads members with `step`, which is given the text behind a name, and what it reads is what
`add?` makes of the members. -/
structure Loop {σ : Type} (go : Nat → Bool → σ → List Char → Except Fault (σ × List Char))
    (step : String → σ → List Char → Except Fault (σ × List Char))
    (add? : σ → String × Tree → Option σ) : Prop where
  next : ∀ fuel first d cs, go (fuel + 1) first d cs =
    (nextKey first cs).bind fun r => match r.1 with
      | none => .ok (d, r.2)
      | some name => (step name d r.2).bind fun r => go fuel false r.1 r.2
  yields : ∀ {name d b t rest v}, Blanks b → SpellsElement t v → Delimited rest →
    Yields rest (step name d (b ++ ':' :: (t ++ rest))) (add? d (name, v))

namespace Loop
variable {σ : Type} {go : Nat → Bool → σ → List Char → Except Fault (σ × List Char)}
  {step : String → σ → List Char → Except Fault (σ × List Char)}
  {add? : σ → String × Tree → Option σ} {b k : List Char} {name : String} {fuel : Nat} {d : σ}

theorem close (h : Loop go step add?) (hb : Blanks b) (first : Bool) (rest : List Char) :
    go (fuel + 1) first d (b ++ '}' :: rest) = .ok (d, rest) := by
  rw [h.next, hb.scanned_brace]
  rfl

/-- A comma with another member behind it is as good as the beginning. -/
theorem comma (h : Loop go step add?) (hb : Blanks b) (hms : SpellsMembers t ms) (cs : List Char) :
    go (fuel + 1) false d (b ++ ',' :: (t ++ cs)) = go (fuel + 1) true d (t ++ cs) := by
  have hname {k name} (hk : SpellsName k name) (cs : List Char) :
      nextKey false (b ++ ',' :: (k ++ cs)) = nextKey true (k ++ cs) := by
    obtain ⟨_, -, hfirst, hcomma⟩ := hk.scanned cs
    rw [hfirst, hcomma b hb]
  rw [h.next, h.next]
  cases hms with
  | last hk => rw [List.append_assoc, hname hk]
  | cons hk => rw [List.append_assoc, hname hk]

/-- One member: what is left is read with the new draft, if there is one. -/
theorem member (h : Loop go step add?) (hk : SpellsName k name) (hv : SpellsElement t v)
    (hrest : Delimited rest) {o : σ → Option σ}
    (hgo : ∀ d b, Blanks b → Yields rest' (go fuel false d (b ++ rest)) (o d)) :
    Yields rest' (go (fuel + 1) true d (k ++ (t ++ rest))) ((add? d (name, v)).bind o) := by
  obtain ⟨b, hb, hfirst, -⟩ := hk.scanned (t ++ rest)
  rw [h.next, hfirst]
  exact (h.yields hb hv hrest).bind hgo

theorem members (h : Loop go step add?) {t : List Char} {ms : List (String × Tree)} {fuel : Nat}
    (hms : SpellsMembers t ms) (d : σ) (hfuel : t.length < fuel) (rest : List Char) :
    Yields rest (go fuel true d (t ++ '}' :: rest)) (ms.foldlM add? d) := by
  match hms with
  | @SpellsMembers.last k t _ _ hk hv =>
    rw [List.length_append] at hfuel
    obtain ⟨fuel, rfl⟩ : ∃ m, fuel = m + 2 := ⟨fuel - 2, by grind [hv.length_pos]⟩
    rw [List.append_assoc]
    refine h.member hk hv (delimited_cons (by simp) rest) fun d b hb => ?_
    rw [h.close hb]
    exact .value .nil
  | @SpellsMembers.cons k t ts _ _ _ hk hv hms =>
    rw [List.length_append, List.length_append, List.length_cons] at hfuel
    obtain ⟨fuel, rfl⟩ : ∃ m, fuel = m + 2 := ⟨fuel - 2, by omega⟩
    rw [List.append_assoc, List.append_assoc, List.cons_append]
    refine h.member hk hv (delimited_cons (by simp) _) fun d b hb => ?_
    rw [h.comma hb hms]
    exact members h hms d (by omega) rest

theorem object (h : Loop go step add?) {u : List Char} (hv : Spells ('{' :: u) (.object ms)) (d : σ)
    (hfuel : u.length ≤ fuel) (rest : List Char) :
    Yields rest (go (fuel + 1) true d (u ++ rest)) (ms.foldlM add? d) := by
  cases hv with
  | emptyObject hb =>
    rw [List.append_assoc, List.singleton_append, h.close hb]
    exact .value .nil
  | object hms =>
    rw [List.length_append] at hfuel
    rw [List.append_assoc, List.singleton_append]
    exact h.members hms d (by omega) rest

end Loop

/-! ## Tables -/

def addEntry? (table : NameTable) (m : String × Tree) : Option NameTable :=
  m.2.text?.map (table.insert m.1)

def readEntry (name : String) (table : NameTable) (cs : List Char) :
    Except Fault (NameTable × List Char) :=
  ((colon cs).bind readText).map fun r => (table.insert name r.1, r.2)

theorem entries_loop : Loop readEntries readEntry addEntry? where
  next fuel first table cs := by
    rw [readEntries]
    rcases nextKey first cs with f | ⟨_ | name, cs⟩
    · rfl
    · rfl
    · rcases hcolon : colon cs with f | after
      · simp [readEntry, hcolon, bind, Except.bind, Except.map]
      · rcases hvalue : readText after with f | r <;>
          simp [readEntry, hcolon, hvalue, bind, Except.bind, Except.map]
  yields hb hv _ := by
    rw [readEntry, hb.scanned_colon]
    exact (readText_yields hv _).map _

def table? : Tree → Option NameTable
  | .object ms => ms.foldlM addEntry? .empty
  | _ => none

theorem readTable_yields (h : SpellsElement t v) (rest : List Char) :
    Yields rest (readTable (t ++ rest)) (table? v) := by
  obtain ⟨c, u, b, hv, hb, hstart⟩ := h.start
  have hobject {ms} (hms : Spells ('{' :: u) (.object ms)) :
      Yields rest (readEntries ((u ++ (b ++ rest)).length + 1) true .empty (u ++ (b ++ rest)))
        (table? (.object ms)) :=
    (entries_loop.object hms .empty (by simp) _).trim hb
  rw [readTable, hstart]
  cases hv with
  | number hn =>
    have hopeners := hn.head_not_mem
    simp only [bind, Except.bind]
    split
    · exact absurd (by decide) hopeners
    · exact .fault _
  | string hs =>
    obtain ⟨rfl, -⟩ := hs.of_cons
    exact .fault _
  | emptyObject hb' => exact hobject (.emptyObject hb')
  | object hms => exact hobject (.object hms)
  | _ => exact .fault _

/-! ## Documents -/

namespace Field

def Value : Field → Type
  | logResult | logSqlParameters => Bool
  | operationNames => NameTable

/-- What a value says, if it is of the field's type. -/
def read? : (f : Field) → Tree → Option f.Value
  | logResult => Tree.bool?
  | logSqlParameters => Tree.bool?
  | operationNames => table?

end Field

namespace Draft

def value (d : Draft) : (f : Field) → Option f.Value
  | .logResult => d.logResult
  | .logSqlParameters => d.logSqlParameters
  | .operationNames => d.operationNames

def set (d : Draft) : (f : Field) → f.Value → Draft
  | .logResult, b => { d with logResult := some b }
  | .logSqlParameters, b => { d with logSqlParameters := some b }
  | .operationNames, table => { d with operationNames := some table }

theorem has_eq (d : Draft) (f : Field) : d.has f = (d.value f).isSome := by
  cases f <;> rfl

theorem value_set (d : Draft) (f : Field) (a : f.Value) : (d.set f a).value f = some a := by
  cases f <;> rfl

theorem value_set_of_ne (d : Draft) {f g : Field} (h : g ≠ f) (a : f.Value) :
    (d.set f a).value g = d.value g := by
  cases f <;> cases g <;> first | rfl | exact absurd rfl h

/-- Adds a member. A field must not have been given before; other members are ignored. -/
def add? (d : Draft) (m : String × Tree) : Option Draft :=
  match Field.ofName? m.1 with
  | none => some d
  | some f => if d.has f then none else (f.read? m.2).map (d.set f)

theorem read_yields (d : Draft) (f : Field) (h : SpellsElement t v) (rest : List Char) :
    Yields rest (d.read f (t ++ rest)) ((f.read? v).map (d.set f)) := by
  cases f with
  | logResult => exact (readBool_yields h rest).map (d.set .logResult)
  | logSqlParameters => exact (readBool_yields h rest).map (d.set .logSqlParameters)
  | operationNames => exact (readTable_yields h rest).map (d.set .operationNames)

/-- What `readFields` does with a member, from behind its name on. -/
def readMember (name : String) (d : Draft) (cs : List Char) : Except Fault (Draft × List Char) :=
  match Field.ofName? name with
  | none => ((colon cs).bind (skipValue (2 * cs.length + 1))).map (d, ·)
  | some f => if d.has f then .error (duplicate name cs) else (colon cs).bind (d.read f)

end Draft

theorem fields_loop : Loop readFields Draft.readMember Draft.add? where
  next fuel first d cs := by
    rw [readFields]
    rcases nextKey first cs with f | ⟨_ | name, cs⟩
    · rfl
    · rfl
    · rcases hname : Field.ofName? name with _ | f
      · rcases hcolon : colon cs with f | after
        · simp [Draft.readMember, hname, hcolon, bind, Except.bind, Except.map]
        · rcases hvalue : skipValue (2 * cs.length + 1) after with f | r <;>
            simp [Draft.readMember, hname, hcolon, hvalue, bind, Except.bind, Except.map]
      · by_cases hd : d.has f = true
        · simp [Draft.readMember, hname, hd, bind, Except.bind]
        · rcases hcolon : colon cs with f | after
          · simp [Draft.readMember, hname, hd, hcolon, bind, Except.bind]
          · rcases hvalue : d.read f after with f | r <;>
              simp [Draft.readMember, hname, hd, hcolon, hvalue, bind, Except.bind]
  yields {name d b t rest v} hb hv hrest := by
    simp only [Draft.readMember, Draft.add?, hb.scanned_colon]
    rcases Field.ofName? name with _ | f
    · have hfuel : 2 * t.length ≤ 2 * (b ++ ':' :: (t ++ rest)).length + 1 := by grind
      obtain ⟨b', hb', hvalue⟩ := hv.passed hfuel hrest
      simp only [Except.bind, hvalue]
      exact .value hb'
    · by_cases hd : d.has f = true
      · simp only [hd, if_true]
        exact .fault _
      · simp only [hd]
        exact d.read_yields f hv rest

theorem readDocument_yields (h : SpellsElement t (.object ms)) :
    Yields [] (readDocument t) (ms.foldlM Draft.add? .empty) := by
  obtain ⟨c, u, b, hv, hb, hstart⟩ := h.start
  have hdocument := hstart []
  rw [List.append_nil] at hdocument
  have hfields (hms : Spells ('{' :: u) (.object ms)) :
      Yields [] (readFields ((u ++ (b ++ [])).length + 1) true .empty (u ++ (b ++ [])))
        (ms.foldlM Draft.add? .empty) :=
    (fields_loop.object hms .empty (by simp) _).trim hb
  rw [readDocument, hdocument]
  cases hv with
  | emptyObject hb' => exact hfields (.emptyObject hb')
  | object hms => exact hfields (.object hms)

/-- The members decide about the settings, and how they are laid out in the text does not. -/
theorem ofJson_of_spells {text : String} (h : SpellsElement text.toList (.object ms)) :
    (∀ d, ms.foldlM Draft.add? .empty = some d → ofJson text = .ok d.settings) ∧
      (ms.foldlM Draft.add? .empty = none → ∃ message, ofJson text = .error (.config message)) := by
  have hread := readDocument_yields h
  rw [ofJson, read]
  generalize readDocument text.toList = r at hread
  generalize ms.foldlM Draft.add? .empty = o at hread
  cases hread with
  | @value d b hb =>
    have hend : skipBlanks b = [] := by
      rw [← List.append_nil b, hb.skip]
      rfl
    simp [bind, Except.bind, hend]
  | fault f => simp [bind, Except.bind]

end DatabaseTracing.Settings
