import DocSchema.Document.Memory
import DocSchema.Proofs.Schema.Automatic
import DocSchema.Proofs.Schema.History

/-!
# The two queues of hooks

A schema keeps the hooks of documents and the hooks of queries in two queues. The first one begins
with the hooks that are there from the start. A call adds at most one entry, at the end of the queue
that the entry belongs to (`adds_run`), and nothing else that calls do touches a queue. So a queue
holds what its history of calls added to it and nothing else (`Adds.runAll`), and the hooks of an
event are those that were declared for it, in order (`queued_runAll`).

The call of a method is no hook. It stays in the queue of documents even where the method has the
name of an event of queries.
-/

namespace DocSchema

variable {δ : Type}

/-! ### Entries and calls -/

/-- Whether an entry belongs to queries, as the hooks of their events do. -/
def HookEntry.forQueries : HookEntry δ → Bool
  | .queued .. => false
  | .pre event _ => isQueryEvent event
  | .on event _ => isQueryEvent event
  | .post event _ => isQueryEvent event

theorem HookEntry.forQueries_of_isPost {e : HookEntry δ} (after : e.isPost = true) :
    e.forQueries = isQueryEvent e.event := by
  cases e with
  | on event hook => rfl
  | post event hook => rfl
  | queued name args => cases after
  | pre event hook => cases after

namespace Call

def entry? : Call δ → Option (HookEntry δ)
  | .queue name args => some (.queued name args)
  | .pre event hook => some (.pre event hook)
  | .post event hook => some (.on event hook)
  | .postWithNext event hook => some (.post event hook)
  | _ => none

/-- The hook that a call declares to run before an event. -/
def preHook? (event : String) : Call δ → Option (PreHook δ)
  | .pre e hook => if e = event then some hook else none
  | _ => none

/-- The entry of a hook that a call declares to run after an event. -/
def postHook? (event : String) : Call δ → Option (HookEntry δ)
  | .post e hook => if e = event then some (.on e hook) else none
  | .postWithNext e hook => if e = event then some (.post e hook) else none
  | _ => none

end Call

/-! ### Looking for the hooks of an event -/

namespace HookQueue

/-- The hooks of an event are found among the entries of its own side, and only there. -/
theorem preHooks_side (es : HookQueue δ) (event : String) (b : Bool) :
    preHooks (es.filter fun e => e.forQueries == b) event =
      if isQueryEvent event = b then preHooks es event else [] := by
  unfold preHooks
  rw [List.filterMap_filter]
  split
  · next side =>
    apply List.filterMap_congr
    intro e _
    cases e with
    | pre e hook => by_cases own : e = event <;> simp [HookEntry.forQueries, own, side]
    | _ => simp
  · next side =>
    apply List.filterMap_eq_nil_iff.2
    intro e _
    cases e with
    | pre e hook => by_cases own : e = event <;> simp [HookEntry.forQueries, own, side]
    | _ => simp

theorem postHooks_side (es : HookQueue δ) (event : String) (b : Bool) :
    postHooks (es.filter fun e => e.forQueries == b) event =
      if isQueryEvent event = b then postHooks es event else [] := by
  -- an entry that runs after the event is on the side of the event
  have own : ∀ e : HookEntry δ, (e.isPost && e.event = event) = true →
      e.forQueries = isQueryEvent event := by
    intro e found
    simp only [Bool.and_eq_true, decide_eq_true_eq] at found
    obtain ⟨after, rfl⟩ := found
    exact HookEntry.forQueries_of_isPost after
  unfold postHooks
  rw [List.filter_filter]
  split
  · next side =>
    apply List.filter_congr
    intro e _
    cases found : e.isPost && e.event = event with
    | false => rfl
    | true => simp [own e found, side]
  · next side =>
    apply List.filter_eq_nil_iff.2
    intro e _ both
    obtain ⟨found, there⟩ := Bool.and_eq_true_iff.1 both
    rw [own e found] at there
    exact side (beq_iff_eq.1 there)

/-- Among the entries that calls add, the hooks before an event are those that calls declare. -/
theorem preHooks_entries (event : String) (calls : List (Call δ)) :
    preHooks (calls.filterMap Call.entry?) event = calls.filterMap (Call.preHook? event) := by
  unfold preHooks
  rw [List.filterMap_filterMap]
  congr
  funext c
  cases c <;> rfl

theorem postHooks_entries (event : String) (calls : List (Call δ)) :
    postHooks (calls.filterMap Call.entry?) event = calls.filterMap (Call.postHook? event) := by
  unfold postHooks
  rw [List.filter_filterMap]
  congr
  funext c
  cases c with
  | post e hook => by_cases own : e = event <;> simp [Call.entry?, Call.postHook?, own,
      HookEntry.isPost, HookEntry.event]
  | postWithNext e hook => by_cases own : e = event <;> simp [Call.entry?, Call.postHook?, own,
      HookEntry.isPost, HookEntry.event]
  | _ => rfl

theorem preHooks_append (q q' : HookQueue δ) (event : String) :
    preHooks (q ++ q') event = preHooks q event ++ preHooks q' event := List.filterMap_append

theorem postHooks_append (q q' : HookQueue δ) (event : String) :
    postHooks (q ++ q') event = postHooks q event ++ postHooks q' event := List.filter_append ..

/-- Where all hooks run before one event, they are the hooks before this event. -/
theorem preHooks_map_pre (hooks : List (PreHook δ)) (event other : String) :
    preHooks (hooks.map (.pre event)) other = if other = event then hooks else [] := by
  induction hooks with
  | nil => simp [preHooks]
  | cons hook hooks ih =>
    unfold preHooks at ih ⊢
    by_cases h : other = event
    · simp_all
    · simp [ih, h, Ne.symm h]

theorem postHooks_map_pre (hooks : List (PreHook δ)) (event other : String) :
    postHooks (hooks.map (.pre event)) other = [] := by
  apply List.filter_eq_nil_iff.2
  intro e he
  obtain ⟨hook, -, rfl⟩ := List.mem_map.1 he
  simp [HookEntry.isPost]

end HookQueue

namespace Schema

/-! ### Both queues of a schema -/

def queues (s : Schema δ) : HookQueue δ × HookQueue δ := (s.hooks, s.queryHooks)

def queueFor (s : Schema δ) (queries : Bool) : HookQueue δ :=
  if queries then s.queryHooks else s.hooks

theorem queues_adopt (s : Schema δ) (path : String) (t : FieldType δ) :
    (s.adopt path t).queues = s.queues := by
  unfold adopt
  split <;> rfl

theorem queues_declareAs (s : Schema δ) (path : String) (d : Definition δ)
    (type : Except SchemaError (FieldType δ)) : (s.declareAs path d type).1.queues = s.queues := by
  unfold declareAs
  split
  · rfl
  · next bound placed =>
    obtain ⟨-, -, tree, -, rfl⟩ := place_ok placed
    split
    · rfl
    · rw [queues_adopt]
      rfl

theorem queues_register (s : Schema δ) (e : TypedEntry δ) : (s.register e).1.queues = s.queues := by
  cases e with
  | missing path => rfl
  | missingItem path => rfl
  | group path =>
    rw [register]
    split <;> rfl
  | field path d type => rw [register_field_fst, queues_declareAs]

theorem queues_registerAll (s : Schema δ) (es : List (TypedEntry δ)) :
    (s.registerAll es).1.queues = s.queues :=
  registerAll_keeps queues_register s es

theorem queues_extendVirtual (s : Schema δ) (path : String) (options : Table Json)
    (getters : List Getter) (setters : List Setter) :
    (s.extendVirtual path options getters setters).1.queues = s.queues := by
  unfold extendVirtual virtual
  cases Table.get? s.virtuals path with
  | some v => rfl
  | none =>
    dsimp only
    split
    · rename_i run
      split at run <;> cases run
      rfl
    · rename_i run
      split at run <;> cases run
      rfl

theorem queues_remember (s : Schema δ) (path : String) : (s.remember path).1.queues = s.queues := by
  unfold remember
  split <;> rfl

theorem queues_lookup (s : Schema δ) (path : String) : (s.lookup path).1.queues = s.queues := by
  rw [lookup_fst]
  split
  · exact queues_remember s path
  · rfl

theorem queues_classify (s : Schema δ) (path : String) : (s.classify path).1.queues = s.queues := by
  unfold classify
  split
  · rfl
  split
  · rfl
  split
  · rfl
  split
  · rfl
  split
  · exact queues_remember s path
  · rfl

theorem queues_addIdField (s : Schema δ) : s.addIdField.1.queues = s.queues := by
  unfold addIdField
  dsimp only
  split
  · exact queues_register s _
  · rfl

theorem queues_addIdVirtual (s : Schema δ) : s.addIdVirtual.1.queues = s.queues := by
  have extended := queues_extendVirtual s "id" [] [idText] []
  unfold addIdVirtual
  split
  · split <;> simp_all
  · rfl

theorem queues_addStampFields (s : Schema δ) : s.addStampFields.1.queues = s.queues := by
  unfold addStampFields
  split
  · rfl
  · exact queues_registerAll s _

theorem queues_requiredPaths (s : Schema δ) (anew : Bool) :
    (s.requiredPaths anew).1.queues = s.queues := by
  unfold requiredPaths
  split
  · split <;> rfl
  · rfl

theorem queues_indexedPaths (s : Schema δ) : s.indexedPaths.1.queues = s.queues := by
  unfold indexedPaths
  split <;> rfl

theorem queues_addIndex (s : Schema δ) (fields options : Json) :
    (s.addIndex fields options).1.queues = s.queues := by
  unfold addIndex
  split <;> rfl

theorem queues_setOption (s : Schema δ) (key : String) (v : Json) :
    (s.setOption key v).1.queues = s.queues := by
  unfold setOption
  split <;> rfl

/-! ### What calls add -/

variable {s s' s'' : Schema δ}

/-- Whether some entries were added to the queues of a schema, each at the end of its own queue. -/
structure Adds (s s' : Schema δ) (es : List (HookEntry δ)) : Prop where
  hooks : s'.hooks = s.hooks ++ es.filter fun e => e.forQueries == false
  queryHooks : s'.queryHooks = s.queryHooks ++ es.filter fun e => e.forQueries == true

namespace Adds

theorem nothing (same : s'.queues = s.queues) : Adds s s' [] := by
  obtain ⟨hooks, queryHooks⟩ := Prod.mk.inj same
  exact ⟨by simpa using hooks, by simpa using queryHooks⟩

theorem trans {es es' : List (HookEntry δ)} (h : Adds s s' es) (h' : Adds s' s'' es') :
    Adds s s'' (es ++ es') := by
  constructor
  · rw [h'.hooks, h.hooks, List.filter_append, List.append_assoc]
  · rw [h'.queryHooks, h.queryHooks, List.filter_append, List.append_assoc]

theorem addHook {e : HookEntry δ} (own : e.forQueries = isQueryEvent e.event) :
    Adds s (s.addHook e) [e] := by
  unfold Schema.addHook
  rw [← own]
  cases h : e.forQueries with
  | true => exact ⟨by simp [h], by simp [h]⟩
  | false => exact ⟨by simp [h], by simp [h]⟩

/-- Queues only grow, and only at their ends. -/
theorem grows {es : List (HookEntry δ)} (h : Adds s s' es) :
    s.hooks <+: s'.hooks ∧ s.queryHooks <+: s'.queryHooks :=
  ⟨⟨_, h.hooks.symm⟩, ⟨_, h.queryHooks.symm⟩⟩

/-- A schema that began empty holds what was added to it. -/
theorem queueFor {o : Options} {es : List (HookEntry δ)} (h : Adds (empty o) s es)
    (queries : Bool) : s.queueFor queries = es.filter fun e => e.forQueries == queries := by
  cases queries with
  | false => exact h.hooks.trans (List.nil_append _)
  | true => exact h.queryHooks.trans (List.nil_append _)

end Adds

variable [Document δ]

theorem queues_add (s : Schema δ) (d : Definition δ) (front : String) :
    (s.add d front).1.queues = s.queues := by
  unfold add
  split
  · exact queues_registerAll s _
  · rfl

/-- A call adds its entry to a queue, and nothing else. -/
theorem adds_run {c : Call δ} (plain : c.IsPlain) (s : Schema δ) :
    Adds s (c.run s).1 c.entry?.toList := by
  cases c with
  | queue name args => exact ⟨by simp [Call.run, Call.entry?, Schema.queue, HookEntry.forQueries],
      by simp [Call.run, Call.entry?, Schema.queue, HookEntry.forQueries]⟩
  | pre event hook => exact .addHook rfl
  | post event hook => exact .addHook rfl
  | postWithNext event hook => exact .addHook rfl
  | add d front => exact .nothing (queues_add s d front)
  | declare path d => exact .nothing (queues_declareAs s path d _)
  | virtual path options getters setters =>
    exact .nothing (queues_extendVirtual s path options getters setters)
  | lookup path => exact .nothing (queues_lookup s path)
  | classify path => exact .nothing (queues_classify s path)
  | requiredPaths anew => exact .nothing (queues_requiredPaths s anew)
  | index fields options => exact .nothing (queues_addIndex s fields options)
  | indexedPaths => exact .nothing (queues_indexedPaths s)
  | set key v => exact .nothing (queues_setOption s key v)
  | method name m => exact .nothing rfl
  | static name f => exact .nothing rfl
  | compile o d => exact .nothing rfl
  | fail e => exact .nothing rfl
  | plugin calls => cases plain
  | attempt c => cases plain

/-- The calls of a history, without the schemas that they were made on. -/
abbrev callsOf (past : List (Schema δ × Call δ)) : List (Call δ) := past.map Prod.snd

/-- A run of calls adds the entries of its history, those of plugins included. -/
theorem Adds.runAll (s : Schema δ) (calls : List (Call δ)) : Adds s (Call.runAll s calls)
    ((callsOf (Call.historyAll s calls)).filterMap Call.entry?) := by
  refine Call.runAll_induct
    (P := fun past s' => Adds s s' ((callsOf past).filterMap Call.entry?))
    (fun past s' c plain before => ?_) calls [] s (.nothing rfl)
  have next := before.trans (adds_run plain s')
  rw [callsOf, List.map_append, List.filterMap_append]
  cases h : c.entry? <;> simpa [h] using next

/-! ### The hooks that are there from the start -/

/-- The hooks that run before a document is saved and that every schema with these options has: the
document is validated, the documents inside it are saved, and its times are kept, if they are
wanted. -/
def firstHooks (o : Options) : List (PreHook δ) :=
  .validateFirst :: .saveInner ::
    match o.timestamps with
    | .disabled => []
    | .enabled created updated => [.stamp created updated]

theorem adds_addStampHook {o : Options} (options : s.options = o) : Adds s s.addStampHook
    (((firstHooks o).drop 2).map (.pre "save")) := by
  unfold addStampHook firstHooks
  rw [options]
  cases o.timestamps with
  | disabled => exact .nothing rfl
  | enabled created updated =>
    exact ⟨rfl, (List.append_nil s.queryHooks).symm⟩

/-- A compiled schema has these hooks and no others. -/
theorem adds_compile {o : Options} {d : Definition δ} (compiled : compile o d = .ok s) :
    Adds (empty o) s ((firstHooks o).map (.pre "save")) := by
  obtain ⟨es, same⟩ := exists_entries compiled
  rw [(same o rfl).1] at compiled
  obtain ⟨s₁, s₂, s₃, s₄, declared, identified, shown, stamped, rfl⟩ := assemble_ok.1 compiled
  have options : s₄.options = o :=
    calc s₄.options = s₃.addBuiltIn.options :=
          (additions_addStampFields rfl stamped).keep (P := fun s' => s'.options = _)
            (fun _ _ step before => step.options.trans before) rfl
      _ = s₃.options := rfl
      _ = o := options_shown declared identified shown
  have h₁ := queues_registerAll (empty o) es
  have h₂ := queues_addIdField s₁
  have h₃ := queues_addIdVirtual s₂
  have h₄ := queues_addStampFields s₃.addBuiltIn
  rw [declared] at h₁
  rw [identified] at h₂
  rw [shown] at h₃
  rw [stamped] at h₄
  have first : Adds (empty o) s₃ [] := .nothing (h₃.trans (h₂.trans h₁))
  have builtIn : Adds s₃ s₃.addBuiltIn PreHook.builtIn :=
    ⟨rfl, (List.append_nil s₃.queryHooks).symm⟩
  exact ((first.trans builtIn).trans (.nothing h₄)).trans (adds_addStampHook options)

/-! ### The queues after any calls -/

/-- What the queues of a schema hold that began with some hooks and on which some calls were
made. -/
structure Queued (first : List (PreHook δ)) (past : List (Call δ)) (s : Schema δ) : Prop where
  hooks : s.hooks =
    first.map (.pre "save") ++ (past.filterMap Call.entry?).filter fun e => e.forQueries == false
  queryHooks : s.queryHooks = (past.filterMap Call.entry?).filter fun e => e.forQueries == true
  /-- The queue of documents has no hook of an event of queries. -/
  ofDocuments : ∀ e ∈ s.hooks, e.kind = "queue" ∨ isQueryEvent e.event = false
  /-- The queue of queries has nothing else. -/
  ofQueries : ∀ e ∈ s.queryHooks, e.kind ≠ "queue" ∧ isQueryEvent e.event = true
  /-- The hooks before an event, in the order of their declaration. -/
  before : ∀ event, HookQueue.preHooks (s.queueFor (isQueryEvent event)) event =
    (if event = "save" then first else []) ++ past.filterMap (Call.preHook? event)
  after : ∀ event, HookQueue.postHooks (s.queueFor (isQueryEvent event)) event =
    past.filterMap (Call.postHook? event)
  elsewhere : ∀ event, HookQueue.preHooks (s.queueFor (!isQueryEvent event)) event = [] ∧
    HookQueue.postHooks (s.queueFor (!isQueryEvent event)) event = []

omit [Document δ] in
/-- The hooks of an event stand where they belong. -/
theorem Adds.queued {o : Options} {first : List (PreHook δ)} {past : List (Call δ)}
    (h : Adds (empty o) s (first.map (.pre "save") ++ past.filterMap Call.entry?)) :
    Queued first past s := by
  have documents : ∀ e : HookEntry δ, e ∈ first.map (.pre "save") → e.forQueries = false := by
    intro e he
    obtain ⟨hook, -, rfl⟩ := List.mem_map.1 he
    rfl
  have hooks := h.queueFor false
  have queryHooks := h.queueFor true
  have side : ∀ queries, ∀ e ∈ s.queueFor queries, e.forQueries = queries := by
    intro queries e he
    rw [h.queueFor queries] at he
    simpa using (List.mem_filter.1 he).2
  constructor
  case hooks =>
    rw [List.filter_append, List.filter_eq_self.2 (by simpa using documents)] at hooks
    exact hooks
  case queryHooks =>
    rw [List.filter_append, List.filter_eq_nil_iff.2 (by simpa using documents)] at queryHooks
    exact queryHooks
  case ofDocuments =>
    intro e he
    have := side false e he
    cases e with
    | queued name args => exact .inl rfl
    | pre event hook | on event hook | post event hook => exact .inr this
  case ofQueries =>
    intro e he
    have := side true e he
    cases e with
    | queued name args => cases this
    | pre event hook | on event hook | post event hook => exact ⟨by simp [HookEntry.kind], this⟩
  case before =>
    intro event
    rw [h.queueFor, HookQueue.preHooks_side, if_pos rfl, HookQueue.preHooks_append,
      HookQueue.preHooks_map_pre, HookQueue.preHooks_entries]
  case after =>
    intro event
    rw [h.queueFor, HookQueue.postHooks_side, if_pos rfl, HookQueue.postHooks_append,
      HookQueue.postHooks_map_pre, HookQueue.postHooks_entries, List.nil_append]
  case elsewhere =>
    intro event
    have other : isQueryEvent event ≠ !isQueryEvent event := by simp
    rw [h.queueFor, HookQueue.preHooks_side, HookQueue.postHooks_side, if_neg other, if_neg other]
    exact ⟨rfl, rfl⟩

/-- Whatever is called on a compiled schema, its queues hold the hooks that are there from the start
and then what the calls declared, each entry once and in the queue that it belongs to. Further calls
only add to their ends. -/
theorem queued_runAll {o : Options} {d : Definition δ} {s₀ : Schema δ}
    (compiled : compile o d = .ok s₀) (calls : List (Call δ)) :
    Queued (firstHooks o) (callsOf (Call.historyAll s₀ calls)) (Call.runAll s₀ calls) ∧
    ∀ more, (Call.runAll s₀ calls).hooks <+: (Call.runAll s₀ (calls ++ more)).hooks ∧
      (Call.runAll s₀ calls).queryHooks <+: (Call.runAll s₀ (calls ++ more)).queryHooks := by
  constructor
  · exact ((adds_compile compiled).trans (Adds.runAll s₀ calls)).queued
  · intro more
    rw [Call.runAll, Call.runAll, List.foldl_append]
    exact (Adds.runAll (Call.runAll s₀ calls) more).grows

/-- A hook that writes into the journal before its event. -/
def noteCheck : PreHook MemoryDocument := fun _ doc => (.ok (), doc.note "check")

/-- A hook that reports after its event, and one that completes on its own. -/
def report : PostHook MemoryDocument := fun _ => ["done"]

def complete : CompletingHook MemoryDocument := fun _ => (["done"], some (.ok ()))

/-- Hooks on both sides, a method with the name of an event of queries, and a plugin that fails
after its first call. -/
def visitCalls : List (Call MemoryDocument) :=
  [.pre "save" noteCheck, .queue "find" [], .pre "find" noteCheck,
    .plugin [.post "save" report, .fail (.invalidPath "" false), .pre "save" noteCheck],
    .postWithNext "update" complete, .set "timestamps" (.bool false)]

theorem queued_runAll_visit : ∃ s₀ : Schema MemoryDocument,
    compile timedOptions namedDefinition = .ok s₀ ∧
    (Call.runAll s₀ visitCalls).hooks =
      [.pre "save" .validateFirst, .pre "save" .saveInner,
        .pre "save" (.stamp "createdAt" "updatedAt"), .pre "save" noteCheck, .queued "find" [],
        .on "save" report] ∧
    (Call.runAll s₀ visitCalls).queryHooks = [.pre "find" noteCheck, .post "update" complete] ∧
    HookQueue.preHooks (Call.runAll s₀ visitCalls).hooks "find" = [] ∧
    HookQueue.preHooks (Call.runAll s₀ visitCalls).queryHooks "find" = [noteCheck] := by
  obtain ⟨s₀, compiled, -⟩ := exists_ok_of_any (p := fun _ => true)
    (x := compile timedOptions namedDefinition) (by decide +kernel)
  obtain ⟨queued, -⟩ := queued_runAll compiled visitCalls
  exact ⟨s₀, compiled, queued.hooks, queued.queryHooks, (queued.elsewhere "find").1,
    queued.before "find"⟩

end Schema

end DocSchema
