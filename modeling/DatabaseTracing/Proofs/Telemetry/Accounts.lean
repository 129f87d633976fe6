import DatabaseTracing.Proofs.Telemetry.Holders

/-! # What holders do, call by call

Calls are made one after the other, each by someone who may make it. What such calls do
with a part of what is held, they do whatever else is held beside it. So what a
statement does with its own spans carries over to the account of all statements.
-/
namespace DatabaseTracing

/-- What has been exported, in order. -/
def Telemetry.exportedData (t : Telemetry) : List SpanRecord := t.exported.map SpanRecord.data

theorem Telemetry.exportedData_eq (t : Telemetry) :
    t.exportedData = t.exports.filterMap fun i => (t.records[i]?).map SpanRecord.data := by
  rw [exportedData, exported, List.map_filterMap]

namespace Account
variable {x y z : Account} {c : SpanCall} {cs ds : List SpanCall} {i : Nat}

theorem Effect.exportedData (h : Effect x c y) (hx : x.Balanced) :
    x.telemetry.exportedData <+: y.telemetry.exportedData := by
  obtain ⟨new, hexports, -⟩ := h.exports
  rw [Telemetry.exportedData_eq, Telemetry.exportedData_eq, hexports, List.filterMap_append]
  have hold : (x.telemetry.exports.filterMap fun i => (y.telemetry.records[i]?).map SpanRecord.data) =
      x.telemetry.exports.filterMap fun i => (x.telemetry.records[i]?).map SpanRecord.data :=
    List.filterMap_congr fun i hi => h.data hx hi
  rw [hold]
  exact List.prefix_append _ _

def calls (x : Account) (cs : List SpanCall) : Account := cs.foldl SpanCall.apply x

/-- Each call is permitted when it is made. -/
def Permits (x : Account) : List SpanCall → Prop
  | [] => True
  | c :: cs => c.Permitted x.held ∧ (c.apply x).Permits cs

/-- The span is told to end by one of the calls. -/
def Told (cs : List SpanCall) (i : Nat) : Prop := ∃ c ∈ cs, c.Ends i

theorem Balanced.calls (hx : x.Balanced) (hcs : x.Permits cs) : (x.calls cs).Balanced := by
  induction cs generalizing x with
  | nil => exact hx
  | cons c cs ih => exact ih ((hx.effect hcs.1).balanced hx) hcs.2

theorem Balanced.exportedData_calls (hx : x.Balanced) (hcs : x.Permits cs) :
    x.telemetry.exportedData <+: (x.calls cs).telemetry.exportedData := by
  induction cs generalizing x with
  | nil => exact List.prefix_refl _
  | cons c cs ih =>
    have h := hx.effect hcs.1
    exact (h.exportedData hx).trans (ih (h.balanced hx) hcs.2)

theorem Balanced.mem_exports_calls (hx : x.Balanced) (hcs : x.Permits cs)
    (hi : i ∈ x.telemetry.exports) : i ∈ (x.calls cs).telemetry.exports := by
  induction cs generalizing x with
  | nil => exact hi
  | cons c cs ih =>
    have h := hx.effect hcs.1
    obtain ⟨new, hexports, -⟩ := h.exports
    refine ih (h.balanced hx) hcs.2 ?_
    rw [hexports]
    exact List.mem_append_left _ hi

theorem Balanced.data_calls (hx : x.Balanced) (hcs : x.Permits cs) (hi : i ∈ x.telemetry.exports) :
    ((x.calls cs).telemetry.records[i]?).map SpanRecord.data =
      (x.telemetry.records[i]?).map SpanRecord.data := by
  induction cs generalizing x with
  | nil => rfl
  | cons c cs ih =>
    have h := hx.effect hcs.1
    have hkept : i ∈ (c.apply x).telemetry.exports := by
      obtain ⟨new, hexports, -⟩ := h.exports
      rw [hexports]
      exact List.mem_append_left _ hi
    exact (ih (h.balanced hx) hcs.2 hkept).trans (h.data hx hi)

theorem Balanced.holdersOf_calls (hx : x.Balanced) (hcs : x.Permits cs)
    (hi : i < x.telemetry.records.length) (hzero : x.holdersOf i = 0) :
    (x.calls cs).holdersOf i = 0 := by
  induction cs generalizing x with
  | nil => exact hzero
  | cons c cs ih =>
    have h := hx.effect hcs.1
    exact ih (h.balanced hx) hcs.2 (Nat.lt_of_lt_of_le hi h.length_records)
      (h.holdersOf_eq_zero hi hzero)

theorem Balanced.told_or_unheld (hx : x.Balanced) (hcs : x.Permits cs)
    (hi : i ∈ (x.calls cs).telemetry.exports) :
    i ∈ x.telemetry.exports ∨ Told cs i ∨ (x.calls cs).holdersOf i = 0 := by
  induction cs generalizing x with
  | nil => exact .inl hi
  | cons c cs ih =>
    have h := hx.effect hcs.1
    have hy := h.balanced hx
    obtain ⟨new, hexports, hnew⟩ := h.exports
    rcases ih hy hcs.2 hi with hi | ⟨d, hd, hends⟩ | hzero
    · rw [hexports] at hi
      rcases List.mem_append.mp hi with hm | hm
      · exact .inl hm
      · rcases hnew i hm with hends | hzero
        · exact .inr (.inl ⟨c, List.mem_cons_self, hends⟩)
        · have hmem : i ∈ (c.apply x).telemetry.exports := by rwa [hexports]
          obtain ⟨s, hs, -⟩ := (hy.exported i).mp hmem
          exact .inr (.inr (hy.holdersOf_calls hcs.2 (List.getElem?_eq_some_iff.mp hs).1 hzero))
    · exact .inr (.inl ⟨d, List.mem_cons_of_mem c hd, hends⟩)
    · exact .inr (.inr hzero)

theorem Balanced.mem_exports_of_told (hx : x.Balanced) (hcs : x.Permits cs) (hi : Told cs i) :
    i ∈ (x.calls cs).telemetry.exports := by
  induction cs generalizing x with
  | nil =>
    obtain ⟨d, hd, -⟩ := hi
    cases hd
  | cons c cs ih =>
    have h := hx.effect hcs.1
    obtain ⟨d, hd, hends⟩ := hi
    rcases List.mem_cons.mp hd with rfl | hd
    · exact (h.balanced hx).mem_exports_calls hcs.2 (h.mem_exports hx hends)
    · exact ih (h.balanced hx) hcs.2 ⟨d, hd, hends⟩

/-- A span that is recorded after the calls is unexported exactly if it was not told to end and is
still held. -/
theorem not_mem_exports_iff (hcs : Permits ⟨.initial, 0⟩ cs)
    (hi : i < (calls ⟨.initial, 0⟩ cs).telemetry.records.length) :
    i ∉ (calls ⟨.initial, 0⟩ cs).telemetry.exports ↔
      ¬ Told cs i ∧ 0 < (calls ⟨.initial, 0⟩ cs).holdersOf i := by
  have hy := balanced_initial.calls hcs
  constructor
  · intro hout
    refine ⟨fun ht => hout (balanced_initial.mem_exports_of_told hcs ht), ?_⟩
    have hr := List.getElem?_eq_getElem hi
    rw [← hy.holders i _ hr]
    refine hy.alive i _ hr (Bool.eq_false_iff.mpr fun hended => ?_)
    exact hout ((hy.exported i).mpr ⟨_, hr, hended⟩)
  · rintro ⟨htold, hpos⟩ hin
    rcases balanced_initial.told_or_unheld hcs hin with h | h | h
    · cases h
    · exact htold h
    · exact Nat.lt_irrefl 0 (h ▸ hpos)

theorem calls_append (x : Account) (cs ds : List SpanCall) :
    x.calls (cs ++ ds) = (x.calls cs).calls ds :=
  List.foldl_append

theorem Permits.append (hcs : x.Permits cs) (hds : (x.calls cs).Permits ds) :
    x.Permits (cs ++ ds) := by
  induction cs generalizing x with
  | nil => exact hds
  | cons c cs ih => exact ⟨hcs.1, ih hcs.2 hds⟩

/-- The account with more contexts that are held beside its own. -/
def beside (x : Account) (rest : Multiset Context) : Account := ⟨x.telemetry, x.held + rest⟩

theorem permitted_beside (hc : c.Permitted x.held) (rest : Multiset Context) :
    c.Permitted (x.beside rest).held := by
  have hmem {cx : Context} (h : cx ∈ x.held) : cx ∈ (x.beside rest).held :=
    Multiset.mem_add.mpr (.inl h)
  cases c with
  | start | setGlobal => trivial
  | edit cx e => exact hmem hc
  | retain cx => exact hc.imp hmem id
  | release cx => exact hmem hc

theorem apply_beside (hc : c.Permitted x.held) (rest : Multiset Context) :
    c.apply (x.beside rest) = (c.apply x).beside rest := by
  cases c with
  | edit | setGlobal => rfl
  | start => exact congrArg (Account.mk _) (Multiset.cons_add ..).symm
  | retain => exact congrArg (Account.mk _) (Multiset.cons_add ..).symm
  | release => exact congrArg (Account.mk _) (Multiset.erase_add_left_pos _ hc)

/-- The calls are permitted and lead from one account to the other. -/
structure Leads (x : Account) (cs : List SpanCall) (y : Account) : Prop where
  permits : x.Permits cs
  calls : x.calls cs = y

theorem Leads.trans (h : Leads x cs y) (h' : Leads y ds z) : Leads x (cs ++ ds) z := by
  obtain ⟨hcs, rfl⟩ := h
  exact ⟨hcs.append h'.permits, (calls_append x cs ds).trans h'.calls⟩

theorem not_told (hcs : ∀ cx e, SpanCall.edit cx e ∉ cs) (i : Nat) : ¬ Told cs i := by
  rintro ⟨c, hc, cx, rfl, -⟩
  exact hcs cx .finish hc

/-- A span that is still held ends only as it is told to. -/
theorem Balanced.not_mem_exports (hx : x.Balanced) (h : Leads x cs y) (ht : ¬ Told cs i)
    (hi : i ∉ x.telemetry.exports) {cx : Context} (hc : cx ∈ y.held) (hr : cx.record = some i) :
    i ∉ y.telemetry.exports := by
  obtain ⟨hcs, rfl⟩ := h
  intro hm
  rcases hx.told_or_unheld hcs hm with h | h | h
  · exact hi h
  · exact ht h
  · exact Nat.lt_irrefl 0 (h ▸ holdersOf_pos hc hr)

theorem Leads.beside (h : Leads x cs y) (rest : Multiset Context) :
    Leads (x.beside rest) cs (y.beside rest) := by
  obtain ⟨hcs, rfl⟩ := h
  induction cs generalizing x with
  | nil => exact ⟨trivial, rfl⟩
  | cons c cs ih =>
    have hstep := apply_beside hcs.1 rest
    obtain ⟨hpermits, hcalls⟩ := ih hcs.2
    rw [← hstep] at hpermits hcalls
    exact ⟨⟨permitted_beside hcs.1 rest, hpermits⟩, hcalls⟩

theorem Leads.call (hc : c.Permitted x.held) : Leads x [c] (c.apply x) := ⟨⟨hc, trivial⟩, rfl⟩

theorem leads_retain (t : Telemetry) {cx : Context} {held : Multiset Context}
    (hc : cx ∈ held ∨ cx.record = none) :
    Leads ⟨t, held⟩ [.retain cx] ⟨t.retain cx, cx ::ₘ held⟩ := .call hc

theorem leads_release (t : Telemetry) (cx : Context) (rest : Multiset Context) :
    Leads ⟨t, cx ::ₘ rest⟩ [.release cx] ⟨t.release cx, rest⟩ := by
  have h : Leads ⟨t, cx ::ₘ rest⟩ [.release cx] _ := .call (Multiset.mem_cons_self cx rest)
  rwa [SpanCall.apply, Multiset.erase_cons_head] at h

theorem leads_releaseAll (t : Telemetry) (cxs : List Context) (rest : Multiset Context) :
    Leads ⟨t, ↑cxs + rest⟩ (cxs.map .release) ⟨t.releaseAll cxs, rest⟩ := by
  induction cxs generalizing t with
  | nil =>
    rw [Multiset.coe_nil, Multiset.zero_add]
    exact ⟨trivial, rfl⟩
  | cons cx cxs ih =>
    have h := leads_release t cx (↑cxs + rest)
    rw [← Multiset.cons_add, Multiset.cons_coe] at h
    exact h.trans (ih (t.release cx))

/-- Some calls lead from one account to the other. -/
def Reaches (x y : Account) : Prop := ∃ cs, Leads x cs y

theorem Reaches.refl (x : Account) : Reaches x x := ⟨[], trivial, rfl⟩

theorem Reaches.call (hc : c.Permitted x.held) : Reaches x (c.apply x) := ⟨[c], .call hc⟩

theorem Reaches.trans (h : Reaches x y) (h' : Reaches y z) : Reaches x z := by
  obtain ⟨cs, h⟩ := h
  obtain ⟨ds, h'⟩ := h'
  exact ⟨cs ++ ds, h.trans h'⟩

theorem Reaches.beside (h : Reaches x y) (rest : Multiset Context) :
    Reaches (x.beside rest) (y.beside rest) := by
  obtain ⟨cs, h⟩ := h
  exact ⟨cs, h.beside rest⟩

theorem Balanced.reaches (hx : x.Balanced) (h : Reaches x y) : y.Balanced := by
  obtain ⟨cs, hcs, rfl⟩ := h
  exact hx.calls hcs

theorem reaches_retain (t : Telemetry) {cx : Context} {held : Multiset Context}
    (hc : cx ∈ held ∨ cx.record = none) : Reaches ⟨t, held⟩ ⟨t.retain cx, cx ::ₘ held⟩ :=
  ⟨_, leads_retain t hc⟩

theorem reaches_release (t : Telemetry) (cx : Context) (rest : Multiset Context) :
    Reaches ⟨t, cx ::ₘ rest⟩ ⟨t.release cx, rest⟩ := ⟨_, leads_release t cx rest⟩

theorem reaches_releaseAll (t : Telemetry) (cxs : List Context) (rest : Multiset Context) :
    Reaches ⟨t, ↑cxs + rest⟩ ⟨t.releaseAll cxs, rest⟩ := ⟨_, leads_releaseAll t cxs rest⟩

theorem reaches_edit (t : Telemetry) {cx : Context} {held : Multiset Context} (hc : cx ∈ held)
    (e : SpanEdit) : Reaches ⟨t, held⟩ ⟨t.edit cx e, held⟩ :=
  .call (c := .edit cx e) hc

theorem reaches_editAll (t : Telemetry) {cx : Context} {held : Multiset Context} (hc : cx ∈ held)
    (es : List SpanEdit) : Reaches ⟨t, held⟩ ⟨t.editAll cx es, held⟩ := by
  induction es generalizing t with
  | nil => exact .refl _
  | cons e es ih => exact (reaches_edit t hc e).trans (ih (t.edit cx e))

end Account
end DatabaseTracing
