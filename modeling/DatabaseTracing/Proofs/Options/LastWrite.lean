import DatabaseTracing.Proofs.Options.Fields

/-! # The last write wins

The value of a field is the one that the last change to write it has given, or the default.
So only the order of the changes that write the same field matters. No change takes an entry
out of the map of names, and by default every operation has one.
-/
namespace DatabaseTracing.Options

/-- What a field holds: for the name of an operation's spans, the entry in the map. -/
def Field.Value : Field → Type
  | .logResult => Bool
  | .tracer => TracerSource
  | .logSqlParameters => Bool
  | .spanName _ => Option String
  | .errorTag => ErrorTag

def value (o : Options) : (f : Field) → f.Value
  | .logResult => o.logResult
  | .tracer => o.tracer
  | .logSqlParameters => o.logSqlParameters
  | .spanName op => o.operationNames op
  | .errorTag => o.errorTag

theorem ext_value {o o' : Options} (h : ∀ f, o.value f = o'.value f) : o = o' := by
  rcases o with ⟨logResult, tracer, logSqlParameters, errorTag, names⟩
  rcases o' with ⟨logResult', tracer', logSqlParameters', errorTag', names'⟩
  obtain rfl : logResult = logResult' := h .logResult
  obtain rfl : tracer = tracer' := h .tracer
  obtain rfl : logSqlParameters = logSqlParameters' := h .logSqlParameters
  obtain rfl : errorTag = errorTag' := h .errorTag
  obtain rfl : names = names' := funext fun op => h (.spanName op)
  rfl

/-- The value that a change writes to a field. A tracer that is not given writes nothing. -/
def Change.write? : Change → (f : Field) → Option f.Value
  | .logResult b, .logResult => some b
  | .tracer p, .tracer => p.map TracerSource.provider
  | .logSqlParameters b, .logSqlParameters => some b
  | .spanName op name, .spanName op' => if op' = op then some (some name) else none
  | .errorTag tag, .errorTag => some tag
  | _, _ => none

variable {o : Options} {f : Field} {v : f.Value} {c : Change} {cs ds : List Change}

/-- A field has the value that a change writes to it, and else the one that it had. -/
theorem value_apply (o : Options) (c : Change) (f : Field) :
    (o.apply c).value f = (c.write? f).getD (o.value f) := by
  rcases c with b | ⟨_ | p⟩ | b | ⟨op, name⟩ | tag <;> cases f <;> try rfl
  case spanName.spanName op' =>
    change (if op' = op then some name else o.operationNames op') =
      (if op' = op then some (some name) else none).getD (o.operationNames op')
    split <;> rfl

/-- The values that changes write to a field, in order. -/
def writes (cs : List Change) (f : Field) : List f.Value := cs.filterMap (·.write? f)

theorem writes_cons (c : Change) (cs : List Change) (f : Field) :
    writes (c :: cs) f = (c.write? f).toList ++ writes cs f := by
  simp only [writes, List.filterMap_cons]
  cases c.write? f <;> rfl

theorem writes_append (cs ds : List Change) (f : Field) :
    writes (cs ++ ds) f = writes cs f ++ writes ds f :=
  List.filterMap_append

theorem writes_eq_nil (h : ∀ c ∈ cs, c.write? f = none) : writes cs f = [] :=
  List.filterMap_eq_nil_iff.mpr h

theorem value_foldl (o : Options) (cs : List Change) (f : Field) :
    (cs.foldl apply o).value f = (writes cs f).getLast?.getD (o.value f) := by
  induction cs generalizing o with
  | nil => rfl
  | cons c cs ih =>
    rw [List.foldl_cons, ih, value_apply, writes_cons, List.getLast?_append]
    cases (writes cs f).getLast? <;> cases c.write? f <;> rfl

theorem value_ofChanges (cs : List Change) (f : Field) :
    (ofChanges cs).value f = (writes cs f).getLast?.getD (default.value f) :=
  value_foldl default cs f

/-- A change writes the value, and none behind it writes the field again. -/
def LastWrite (cs : List Change) (f : Field) (v : f.Value) : Prop :=
  ∃ before c behind, cs = before ++ c :: behind ∧ c.write? f = some v ∧
    ∀ d ∈ behind, d.write? f = none

theorem LastWrite.getLast?_writes (h : LastWrite cs f v) : (writes cs f).getLast? = some v := by
  obtain ⟨before, c, behind, rfl, hc, hbehind⟩ := h
  rw [writes_append, writes_cons, hc, writes_eq_nil hbehind]
  exact List.getLast?_concat

theorem getLast?_writes_replicate (cs : List Change) (f : Field) (n : Nat) :
    (writes (List.replicate (n + 1) cs).flatten f).getLast? = (writes cs f).getLast? := by
  induction n with
  | zero => simp
  | succ n ih =>
    rw [List.replicate_succ, List.flatten_cons, writes_append, List.getLast?_append, ih,
      Option.or_self]

/-- Every operation has an entry in the map of names. -/
def Complete (o : Options) : Prop := ∀ op, (o.operationNames op).isSome

theorem complete_default : default.Complete := by
  intro op
  cases op <;> rfl

theorem Complete.apply (h : o.Complete) (c : Change) : (o.apply c).Complete := by
  intro op
  rcases c with b | ⟨_ | p⟩ | b | ⟨op', name⟩ | tag
  case spanName =>
    change (if op = op' then some name else o.operationNames op).isSome
    split
    · rfl
    · exact h op
  all_goals exact h op

theorem Complete.foldl (h : o.Complete) (cs : List Change) : (cs.foldl Options.apply o).Complete := by
  induction cs generalizing o with
  | nil => exact h
  | cons c cs ih => exact ih (h.apply c)

theorem Complete.entry (h : o.Complete) (op : Operation) :
    o.operationNames op = some (o.spanName op) := by
  obtain ⟨name, hname⟩ := Option.isSome_iff_exists.mp (h op)
  rw [spanName, hname, Option.getD_some]

/-- Debug output goes through the operations and leaves none of them out. -/
theorem Complete.describe_names (h : o.Complete) : ∃ ops : List Operation,
    ops.Perm Operation.all ∧ o.operationNames.describe =
      "\x7b" ++ ", ".intercalate (ops.map fun op => op.title ++ ": " ++ quoted (o.spanName op)) ++
        "\x7d" := by
  refine ⟨[.create, .delete, .query, .raw, .row, .update], by decide, ?_⟩
  rw [OperationNames.describe]
  simp only [h.entry, Option.map_some, List.filterMap_eq_map']

/-- What becomes of the options under a list of changes. -/
structure LastWriteWins (cs : List Change) : Prop where
  written : ∀ f v, LastWrite cs f v → (ofChanges cs).value f = v
  unwritten : ∀ f, (∀ c ∈ cs, c.write? f = none) → (ofChanges cs).value f = default.value f
  swapped : ∀ before c d behind, cs = before ++ c :: d :: behind → c.field ≠ d.field →
    ofChanges (before ++ d :: c :: behind) = ofChanges cs
  /-- Only the order of the writes to one and the same field matters. -/
  reordered : ∀ ds : List Change,
    (∀ f, writes ds f = writes cs f) → ofChanges ds = ofChanges cs
  repeated : ∀ n, ofChanges (List.replicate (n + 1) cs).flatten = ofChanges cs
  /-- Every operation has an entry, and its spans are called by it. -/
  present : ∀ op, (ofChanges cs).operationNames op = some ((ofChanges cs).spanName op)
  /-- By default that is the operation's own name. -/
  own : ∀ op, default.operationNames op = some op.name
  /-- Debug output has one entry for each operation. -/
  listed : ∃ ops : List Operation, ops.Perm Operation.all ∧ ∃ before behind,
    (ofChanges cs).describe = before ++ ", ".intercalate
      (ops.map fun op => op.title ++ ": " ++ quoted ((ofChanges cs).spanName op)) ++ behind

theorem last_write_wins (cs : List Change) : LastWriteWins cs where
  written f v h := by rw [value_ofChanges, h.getLast?_writes, Option.getD_some]
  unwritten f h := by
    rw [value_ofChanges, writes_eq_nil h]
    rfl
  swapped before c d behind hcs h := by
    rw [hcs]
    simp only [ofChanges, List.foldl_append, List.foldl_cons]
    rw [apply_comm h]
  reordered ds h := ext_value fun f => by rw [value_ofChanges, value_ofChanges, h]
  repeated n := ext_value fun f => by
    rw [value_ofChanges, value_ofChanges, getLast?_writes_replicate]
  present := (complete_default.foldl cs).entry
  own op := by cases op <;> rfl
  listed := by
    obtain ⟨ops, hops, hnames⟩ := (complete_default.foldl cs).describe_names
    obtain ⟨before, hbefore⟩ : ∃ before, (ofChanges cs).describe =
        before ++ (ofChanges cs).operationNames.describe ++ ", .. \x7d" := ⟨_, rfl⟩
    refine ⟨ops, hops, before ++ "\x7b", "\x7d" ++ ", .. \x7d", ?_⟩
    rw [hbefore, ofChanges, hnames]
    simp only [String.append_assoc]

/-- A tracer that is not given leaves the one that is there. -/
example (p : Provider) : (ofChanges [.tracer (some p), .tracer none]).tracer = .provider p := rfl

end DatabaseTracing.Options
