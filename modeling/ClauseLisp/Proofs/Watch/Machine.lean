import ClauseLisp.Proofs.Watch.Basic

/-!
# Watched calls

Forcing lazy lists, memo keys and builtins are the same in the watched machine, except
for the calls that they make.  So they follow the watched machine if the way to call
functions does.  A call makes a scope for the clause or the lambda that it enters, and
binds the parameters there.

## Main results

* `Guide.beginCall_follows` — what a call begins with.
-/

namespace ClauseLisp

/-! ## Quiet moves -/

theorem newNode_quiet (iterator state : Value) (s : State) :
    s.Quiet (newNode iterator state s).2 := ⟨rfl, rfl, rfl, rfl⟩

theorem typing_quiet {α : Type} (x : Typing α) (s : State) : s.Quiet (Run.typing x s).2 :=
  ⟨rfl, rfl, rfl, rfl⟩

theorem newValue_quiet (value : Value) (s : State) : s.Quiet (newValue value s).2 := by
  unfold newValue
  split
  · exact typing_quiet _ s
  · exact .refl s

theorem recordStep_quiet (node : Nat) (iterator : Value) (step : IterStep) (s : State) :
    s.Quiet (recordStep node iterator step s).2 := by
  rw [recordStep_apply]
  split
  · exact .refl s
  · exact .settled s node iterator step

namespace Guide

variable {γ : Guide}

theorem ofExcept_follows {α : Type} {r : γ.Record} (x : Except Error α) :
    γ.Follows r (Run.ofExcept x) fun _ => Run.ofExcept x := by
  cases x with
  | ok value => exact .pure value
  | error error => exact .fail error

theorem newNode_follows {r : γ.Record} (iterator state : Value) :
    γ.Follows r (newNode iterator state) fun _ => newNode iterator state :=
  .of_quiet (newNode_quiet iterator state)

theorem newValue_follows {r : γ.Record} (value : Value) :
    γ.Follows r (newValue value) fun _ => newValue value :=
  .of_quiet (newValue_quiet value)

theorem typing_follows {α : Type} {r : γ.Record} (x : Typing α) :
    γ.Follows r (Run.typing x) fun _ => Run.typing x :=
  .of_quiet (typing_quiet x)

/-- An error that shows something of the state. -/
theorem get_fail_follows {α : Type} {r : γ.Record} (error : State → Error) :
    γ.Follows r (MonadState.get >>= fun s => ClauseLisp.fail (error s) : Run α)
      fun _ => MonadState.get >>= fun s => ClauseLisp.fail (error s) :=
  .of_quiet fun s => .refl s

section

variable {call : Caller} {callW : Watch → Caller} (hCall : γ.FollowsCall call callW)

include hCall

/-! ## Forcing lazy lists -/

theorem force_follows {r : γ.Record} (node : Nat) :
    γ.Follows r (force call node) fun w => force (callW w) node := by
  refine .bind .get fun s r' _ => ?_
  cases s.nodes[node]? with
  | none => exact .pure _
  | some n =>
      cases hForced : n.outcome with
      | some forced =>
          simp only [hForced]
          exact .pure _
      | none =>
          simp only [hForced]
          refine .bind (hCall r' n.iterator [n.state]) fun result r'' _ => ?_
          cases IterStep.ofValue? result with
          | some step => exact .of_quiet (recordStep_quiet node n.iterator step)
          | none => exact get_fail_follows fun s => .eval (.badStep (s.repr result))

theorem uncons_follows {r : γ.Record} (context : String) (value : Value) :
    γ.Follows r (uncons call context value) fun w => uncons (callW w) context value := by
  unfold uncons
  cases value.untagged with
  | nil => exact .pure _
  | cell head tail elem => exact .pure _
  | lazy node =>
      refine .bind (force_follows hCall node) fun forced r' _ => ?_
      cases forced with
      | ended => exact .pure _
      | item head next => exact .pure _
  | _ => exact get_fail_follows fun s => .cast context "list" (s.repr _) 0

theorem exposeHead_follows {r : γ.Record} (value : Value) :
    γ.Follows r (exposeHead call value) fun w => exposeHead (callW w) value := by
  unfold exposeHead
  cases value with
  | lazy node =>
      refine .bind (force_follows hCall node) fun forced r' _ => ?_
      cases forced with
      | ended => exact .pure _
      | item head next => exact .pure _
  | _ => exact .pure _

theorem elementsOnto_follows (context : String) (fuel : Nat) :
    ∀ {r : γ.Record} (done : List Value) (value : Value),
      γ.Follows r (elementsOnto call context fuel done value)
        fun w => elementsOnto (callW w) context fuel done value := by
  induction fuel with
  | zero => exact fun _ _ => .throw .outOfFuel
  | succ fuel ih =>
      intro r done value
      refine .bind (uncons_follows hCall context value) fun cell r' _ => ?_
      cases cell with
      | none => exact .pure _
      | some parts => exact ih (parts.1 :: done) parts.2

theorem elements_follows {r : γ.Record} (fuel : Nat) (context : String) (value : Value) :
    γ.Follows r (elements call fuel context value)
      fun w => elements (callW w) fuel context value :=
  elementsOnto_follows hCall context fuel [] value

/-! ## Memo keys -/

theorem listKeyOnto_follows {key : Value → Run String} {keyW : Watch → Value → Run String}
    (hKey : ∀ {r : γ.Record} (value : Value), γ.Follows r (key value) fun w => keyW w value)
    (fuel : Nat) :
    ∀ {r : γ.Record} (done : String) (value : Value),
      γ.Follows r (listKeyOnto call key fuel done value)
        fun w => listKeyOnto (callW w) (keyW w) fuel done value := by
  induction fuel with
  | zero => exact fun _ _ => .throw .outOfFuel
  | succ fuel ih =>
      intro r done value
      refine .bind (uncons_follows hCall "memo" value) fun cell r' _ => ?_
      cases cell with
      | none => exact .pure _
      | some parts => exact .bind (hKey parts.1) fun k r'' _ => ih (done ++ k ++ " ") parts.2

theorem valueKey_follows (fuel : Nat) :
    ∀ {r : γ.Record} (value : Value),
      γ.Follows r (valueKey call fuel value) fun w => valueKey (callW w) fuel value := by
  induction fuel with
  | zero => exact fun _ => .throw .outOfFuel
  | succ fuel ih =>
      intro r value
      have hList : ∀ list : Value,
          γ.Follows r
            (listKeyOnto call (valueKey call fuel) fuel "(" list >>= fun items => pure (items ++ ")"))
            fun w => listKeyOnto (callW w) (valueKey (callW w) fuel) fuel "(" list >>= fun items =>
              pure (items ++ ")") := fun list =>
        .bind (listKeyOnto_follows hCall ih fuel "(" list) fun items r' _ => .pure _
      cases value with
      | tagged name inner => exact .bind (ih inner) fun k r' _ => .pure _
      | nil => exact hList .nil
      | cell head tail elem => exact hList (.cell head tail elem)
      | lazy node => exact hList (.lazy node)
      | _ => exact .pure _

theorem callKey_follows (fuel : Nat) {r : γ.Record} (arguments : List Value) :
    γ.Follows r (callKey call fuel arguments) fun w => callKey (callW w) fuel arguments := by
  have hOnto : ∀ (arguments : List Value) {r : γ.Record} (done : String),
      γ.Follows r (callKeyOnto call fuel done arguments)
        fun w => callKeyOnto (callW w) fuel done arguments := by
    intro arguments
    induction arguments with
    | nil => exact fun _ => .pure _
    | cons argument arguments ih =>
        intro r done
        exact .bind (valueKey_follows hCall fuel argument) fun k r' _ => ih (done ++ k ++ " ")
  exact hOnto arguments ""

/-! ## Builtins -/

omit hCall in
theorem listArgument_follows {r : γ.Record} (arguments : List Value) (position : Nat) :
    γ.Follows r (listArgument arguments position) fun _ => listArgument arguments position := by
  unfold listArgument
  split
  · exact .fail _
  · split
    · exact .pure _
    · exact get_fail_follows fun s => s.view.argumentError "list" _ position

theorem listsEqual_follows {equal : Value → Value → Run Bool}
    {equalW : Watch → Value → Value → Run Bool}
    (hEqual : ∀ {r : γ.Record} (left right : Value),
      γ.Follows r (equal left right) fun w => equalW w left right) (fuel : Nat) :
    ∀ {r : γ.Record} (left right : Value),
      γ.Follows r (listsEqual call equal fuel left right)
        fun w => listsEqual (callW w) (equalW w) fuel left right := by
  induction fuel with
  | zero => exact fun _ _ => .throw .outOfFuel
  | succ fuel ih =>
      intro r left right
      refine .bind (uncons_follows hCall "=" left) fun leftCell r' _ => ?_
      refine .bind (uncons_follows hCall "=" right) fun rightCell r'' _ => ?_
      cases leftCell with
      | none => cases rightCell <;> exact .pure _
      | some leftParts =>
          cases rightCell with
          | none => exact .pure _
          | some rightParts =>
              refine .bind (hEqual leftParts.1 rightParts.1) fun same r₃ _ => ?_
              split
              · exact ih leftParts.2 rightParts.2
              · exact .pure _

theorem equalForced_follows (fuel : Nat) :
    ∀ {r : γ.Record} (left right : Value),
      γ.Follows r (equalForced call fuel left right)
        fun w => equalForced (callW w) fuel left right := by
  induction fuel with
  | zero => exact fun _ _ => .throw .outOfFuel
  | succ fuel ih =>
      intro r left right
      simp only [equalForced]
      split
      · exact listsEqual_follows hCall ih fuel left right
      · exact .pure _

theorem allEqual_follows (fuel : Nat) :
    ∀ (arguments : List Value) {r : γ.Record},
      γ.Follows r (allEqual call fuel arguments) fun w => allEqual (callW w) fuel arguments := by
  intro arguments
  induction arguments with
  | nil => exact .pure _
  | cons left rest ih =>
      cases rest with
      | nil => exact .pure _
      | cons right rest =>
          intro r
          simp only [allEqual]
          refine .bind (equalForced_follows hCall fuel left right) fun same r' _ => ?_
          split
          · exact ih
          · exact .pure _

theorem elementsOfAll_follows (fuel : Nat) (context : String) :
    ∀ (values : List Value) {r : γ.Record},
      γ.Follows r (elementsOfAll call fuel context values)
        fun w => elementsOfAll (callW w) fuel context values := by
  intro values
  induction values with
  | nil => exact .pure _
  | cons value values ih =>
      refine .bind (elements_follows hCall fuel context value) fun items r' _ => ?_
      exact .bind ih fun others r'' _ => .pure _

theorem concatAll_follows (fuel : Nat) {r : γ.Record} (arguments : List Value) :
    γ.Follows r (concatAll call fuel arguments) fun w => concatAll (callW w) fuel arguments := by
  unfold concatAll
  split
  · exact .pure _
  · exact .pure _
  · split
    · exact get_fail_follows fun s => s.view.argumentError "list" _ _
    · refine .bind (elementsOfAll_follows hCall fuel "concat" arguments.dropLast) fun items r' _ => ?_
      exact .bind .get fun s r'' _ => newValue_follows _

theorem forceLists_follows (fuel : Nat) (context : String) :
    ∀ (values : List Value) {r : γ.Record},
      γ.Follows r (forceLists call fuel context values)
        fun w => forceLists (callW w) fuel context values := by
  intro values
  induction values with
  | nil => exact .pure _
  | cons value values ih =>
      intro r
      unfold forceLists
      split
      · exact .bind (elements_follows hCall fuel context value) fun _ r' _ => ih
      · exact ih

omit hCall in
theorem openPath_follows {r : γ.Record} (path : String) :
    γ.Follows r (openPath path) fun _ => openPath path := by
  unfold openPath
  refine .bind .get fun s r' _ => ?_
  split
  · exact .throw _
  · split
    · exact .fail _
    · exact .of_quiet fun s => ⟨rfl, rfl, rfl, rfl⟩

omit hCall in
theorem readNext_follows {r : γ.Record} (handle : Int) :
    γ.Follows r (readNext handle) fun _ => readNext handle := by
  unfold readNext
  split
  · exact .fail _
  · refine .bind .get fun s r' _ => ?_
    split
    · exact .fail _
    · rename_i stream _
      rcases hStep : stream.read with ⟨result, later⟩
      refine .bind (.of_quiet fun s => ⟨rfl, rfl, rfl, rfl⟩) fun _ r'' _ => ?_
      rcases result with cause | _ | c
      · exact .fail _
      · exact .pure _
      · exact .bind .get fun s r₃ _ => newValue_follows _

omit hCall in
theorem makeLazy_follows {r : γ.Record} (arguments : List Value) :
    γ.Follows r (makeLazy arguments) fun _ => makeLazy arguments := by
  unfold makeLazy
  split
  · split
    · exact newNode_follows _ _
    · exact get_fail_follows fun s => s.view.argumentError "func" _ 0
  · exact .fail _

theorem printAll_follows (fuel : Nat) {r : γ.Record} (arguments : List Value) :
    γ.Follows r (printAll call fuel arguments) fun w => printAll (callW w) fuel arguments := by
  refine .bind (forceLists_follows hCall fuel "print" arguments) fun _ r' _ => ?_
  exact .of_quiet fun s => ⟨rfl, rfl, rfl, rfl⟩

theorem intrinsic_follows (fuel : Nat) {r : γ.Record} (arguments : List Value)
    (intrinsic : Intrinsic) :
    γ.Follows r (intrinsic.run call fuel arguments)
      fun w => intrinsic.run (callW w) fuel arguments := by
  have hList : ∀ {α : Type} (f : Value → Run α) (h : Watch → Value → Run α),
      (∀ list r', γ.le r r' → γ.Follows r' (f list) fun w => h w list) →
      γ.Follows r (listArgument arguments 0 >>= f) fun w => listArgument arguments 0 >>= h w :=
    fun f h hf => .bind (listArgument_follows arguments 0) hf
  cases intrinsic with
  | equal => exact .bind (allEqual_follows hCall fuel arguments) fun _ r' _ => .pure _
  | head =>
      refine hList _ _ fun list r' _ =>
        .bind (uncons_follows hCall "head" list) fun cell r'' _ => ?_
      cases cell with
      | none => exact .fail _
      | some parts => exact .pure _
  | tail =>
      refine hList _ _ fun list r' _ =>
        .bind (uncons_follows hCall "tail" list) fun cell r'' _ => ?_
      cases cell with
      | none => exact .pure _
      | some parts => exact .pure _
  | isEmpty =>
      exact hList _ _ fun list r' _ =>
        .bind (uncons_follows hCall "empty?" list) fun _ r'' _ => .pure _
  | gen => exact makeLazy_follows arguments
  | concat => exact concatAll_follows hCall fuel arguments
  | print => exact printAll_follows hCall fuel arguments
  | openFile =>
      simp only [Intrinsic.run]
      split
      · split
        · exact openPath_follows _
        · exact get_fail_follows fun s => s.view.argumentError "str" _ 0
      · exact .fail _
  | readChar =>
      simp only [Intrinsic.run]
      split
      · exact readNext_follows _
      · exact get_fail_follows fun s => s.view.argumentError "int" _ 0
      · exact .fail _

theorem builtin_follows (fuel : Nat) {r : γ.Record} (b : Builtin) (arguments : List Value) :
    γ.Follows r (b.run call fuel arguments) fun w => b.run (callW w) fuel arguments := by
  unfold Builtin.run
  split
  · refine .bind .get fun s r' _ => ?_
    exact .bind (ofExcept_follows _) fun value r'' _ => newValue_follows value
  · exact intrinsic_follows hCall fuel arguments _

/-! ## Calls -/

theorem exposeWhere_follows (isLiteral : Nat → Bool) :
    ∀ (arguments : List Value) {r : γ.Record} (position : Nat),
      γ.Follows r (exposeWhere call isLiteral position arguments)
        fun w => exposeWhere (callW w) isLiteral position arguments := by
  intro arguments
  induction arguments with
  | nil => exact fun _ => .pure _
  | cons argument arguments ih =>
      intro r position
      simp only [exposeWhere]
      have hRest : ∀ (first : Value) (r' : γ.Record), γ.Follows r'
          (exposeWhere call isLiteral (position + 1) arguments >>= fun rest =>
            pure (first :: rest))
          fun w => exposeWhere (callW w) isLiteral (position + 1) arguments >>= fun rest =>
            pure (first :: rest) := fun _ _ =>
        .bind (ih (position + 1)) fun _ _ _ => .pure _
      split
      · exact .bind (exposeHead_follows hCall argument) fun first r' _ => hRest first r'
      · exact .bind (.pure argument) fun first r' _ => hRest first r'

omit hCall in
theorem chooseClause_follows {r : γ.Record} (name : String) (clauses : List Clause)
    (arguments : List Value) :
    γ.FollowsTo (fun _ clause => clause ∈ clauses) r (chooseClause name clauses arguments)
      fun _ => chooseClause name clauses arguments := by
  refine .of_follows (.bind .get fun s r' _ => ?_) fun _ => chooseClause_gives name clauses arguments
  refine .bind (typing_follows _) fun choice r'' _ => ?_
  cases choice with
  | none => exact get_fail_follows fun s => .dispatch name _
  | some choice => exact .pure _

omit hCall in
theorem requireType_follows {r : γ.Record} (context : String) (ty : Ty) (value : Value) :
    γ.Follows r (requireType context ty value) fun _ => requireType context ty value := by
  refine .bind .get fun s r' _ => .bind (typing_follows _) fun result r'' _ => ?_
  obtain ⟨accepted, b⟩ := result
  cases accepted with
  | true => exact .pure _
  | false => exact get_fail_follows fun s => .cast context ty.text (s.repr value) 0

omit hCall in
theorem tagChecked_follows {r : γ.Record} (name : String) (parent : Ty) (arguments : List Value) :
    γ.Follows r (tagChecked name parent arguments) fun _ => tagChecked name parent arguments := by
  unfold tagChecked
  split
  · exact .bind (requireType_follows name parent _) fun _ r' _ => .pure _
  · exact .fail _

omit hCall in
theorem bindIn_follows {r : γ.Record} {scope : Nat} {name : String}
    (h : γ.Binds r scope name) (value : Value) :
    γ.Follows r (bindIn scope name value) fun _ => bindIn scope name value := by
  refine .bind .get fun s r' hLe => ?_
  split
  · exact .fail _
  · exact fun s hValid =>
      ⟨r', γ.le_refl r', γ.bound value hValid (γ.binds_mono hLe h), fun _ _ => rfl⟩

omit hCall in
theorem bindArguments_follows {scope : Nat} :
    ∀ (ps : List Pattern) (arguments : List Value) {r : γ.Record},
      (∀ p ∈ ps, ∀ name, p.name? = some name → γ.Binds r scope name) →
      γ.Follows r (bindArguments scope ps arguments) fun _ => bindArguments scope ps arguments := by
  intro ps
  induction ps with
  | nil => exact fun _ _ _ => .pure _
  | cons p ps ih =>
      intro arguments r hBinds
      cases arguments with
      | nil => exact .pure _
      | cons argument arguments =>
          have hRest : ∀ r', γ.le r r' → γ.Follows r' (bindArguments scope ps arguments)
              fun _ => bindArguments scope ps arguments := fun r' hLe =>
            ih arguments fun q hq name hName =>
              γ.binds_mono hLe (hBinds q (List.mem_cons_of_mem _ hq) name hName)
          unfold bindArguments
          split
          · rename_i name hName
            exact .bind (bindIn_follows (hBinds p List.mem_cons_self name hName) argument)
              fun _ r' hLe => hRest r' hLe
          · exact .bind (.pure ()) fun _ r' hLe => hRest r' hLe

/-- A body that may be evaluated in its scope, and a result that may be waited for. -/
structure Begins (γ : Guide) (r : γ.Record) (activation : Activation) : Prop where
  body : γ.Home r activation.body activation.scope
  memo : ∀ slot ∈ activation.memo.toList, γ.Awaits r slot

/-- A call that is done, or goes on as it may. -/
def Fits (γ : Guide) (r : γ.Record) : Begun → Prop
  | .done _ => True
  | .enter activation => γ.Begins r activation

omit hCall in
/-- A scope is made and filled. -/
theorem beginBody_follows {r : γ.Record} {maker : Maker} (hMakes : γ.Makes r maker) (name : String)
    (arguments : List Value) {body : Expr} {memo : Option Awaited} (hBody : body ∈ maker.body)
    (hMemo : ∀ slot ∈ memo.toList, γ.Awaits r slot) :
    γ.FollowsTo γ.Fits r
      (childScope maker.parent >>= fun scope => bindArguments scope maker.params arguments >>=
        fun _ => pure (.enter ⟨name, body, scope, memo⟩))
      fun w => w.guard (w.enter maker) >>= fun _ => childScope maker.parent >>= fun scope =>
        bindArguments scope maker.params arguments >>= fun _ =>
          pure (.enter ⟨name, body, scope, memo⟩) := by
  refine .enter hMakes fun scope r' hLe hParams hHome => ?_
  refine .after (bindArguments_follows maker.params arguments hParams) fun _ r'' hLe' => ?_
  refine .pure fun r₃ hLe'' => ⟨γ.home_mono (γ.le_trans hLe' hLe'') (hHome body hBody), ?_⟩
  exact fun slot hSlot =>
    γ.awaits_mono (γ.le_trans hLe (γ.le_trans hLe' hLe'')) (hMemo slot hSlot)

theorem beginClosure_follows {r : γ.Record} {closure : Closure}
    (hMakes : γ.Makes r (.closure closure)) (arguments : List Value) :
    γ.FollowsTo γ.Fits r (beginClosure call closure arguments)
      fun w => w.beginClosure (callW w) closure arguments := by
  have hBegin : ∀ {r' : γ.Record}, γ.le r r' → γ.FollowsTo γ.Fits r'
      (do
        let arguments ← exposeWhere call closure.clause.litAt 0 arguments
        let clause ← chooseClause "lambda" [closure.clause] arguments
        let scope ← childScope closure.scope
        bindArguments scope clause.params arguments
        return Begun.enter ⟨"lambda", clause.body, scope, none⟩)
      fun w => do
        let arguments ← exposeWhere (callW w) closure.clause.litAt 0 arguments
        let clause ← chooseClause "lambda" [closure.clause] arguments
        w.guard (w.enter (.closure closure))
        let scope ← childScope closure.scope
        bindArguments scope clause.params arguments
        return Begun.enter ⟨"lambda", clause.body, scope, none⟩ := by
    intro r' hLe
    refine .after (exposeWhere_follows hCall _ arguments 0) fun arguments r'' hLe' => ?_
    refine .bind (chooseClause_follows "lambda" _ arguments) fun clause r₃ hLe'' hMem => ?_
    obtain rfl := List.mem_singleton.mp hMem
    exact beginBody_follows (γ.makes_mono (γ.le_trans hLe (γ.le_trans hLe' hLe'')) hMakes) "lambda"
      arguments List.mem_cons_self nofun
  unfold beginClosure Watch.beginClosure
  dsimp only
  split
  · exact .after (.fail _) fun _ r' hLe => hBegin hLe
  · exact hBegin (γ.le_refl r)

omit hCall in
theorem beginClause_follows {r : γ.Record} {name : String} {clause : Clause}
    (hMakes : γ.Makes r (.clause name clause)) (arguments : List Value) {memo : Option Awaited}
    (hMemo : ∀ slot ∈ memo.toList, γ.Awaits r slot) :
    γ.FollowsTo γ.Fits r (beginClause name clause arguments memo)
      fun w => w.beginClause name clause arguments memo :=
  beginBody_follows hMakes name arguments List.mem_cons_self hMemo

omit hCall in
/-- If a memo table does not have a key, the result under it may be waited for. -/
theorem remembered_follows {r : γ.Record} (name key : String) :
    γ.FollowsTo (fun r' known => known = none → γ.Awaits r' ⟨name, key⟩) r (remembered name key)
      fun w => w.guard (w.lookup name key) >>= fun _ => remembered name key := by
  refine .guard (fun s hValid => ?_) fun s w => γ.lookup
  refine ⟨r, γ.le_refl r, hValid, fun known hKnown hNone => ?_, fun _ _ => rfl⟩
  exact γ.awaits_lookup hValid (hNone ▸ hKnown)

theorem beginFunction_follows (fuel : Nat) {r : γ.Record} {name : String} {clauses : List Clause}
    (hMakes : ∀ clause ∈ clauses, γ.Makes r (.clause name clause)) (isLiteral : Nat → Bool)
    (arguments : List Value) :
    γ.FollowsTo γ.Fits r (beginFunction call fuel name clauses isLiteral arguments)
      fun w => w.beginFunction (callW w) fuel name clauses isLiteral arguments := by
  refine .after (exposeWhere_follows hCall isLiteral arguments 0) fun arguments r₁ hLe₁ => ?_
  refine .bind (chooseClause_follows name clauses arguments) fun clause r₂ hLe₂ hMem => ?_
  have hClause : γ.Makes r₂ (.clause name clause) :=
    γ.makes_mono (γ.le_trans hLe₁ hLe₂) (hMakes clause hMem)
  split
  · refine .after (callKey_follows hCall fuel arguments) fun key r₃ hLe₃ => ?_
    have hKnown := remembered_follows (r := r₃) name key
    refine .congr (fun w => (bind_assoc _ _ _).symm) (hKnown.bind fun known r₄ hLe₄ hAwaits => ?_)
    cases known with
    | some value => exact .pure fun _ _ => trivial
    | none =>
        refine beginClause_follows (γ.makes_mono (γ.le_trans hLe₃ hLe₄) hClause) arguments ?_
        intro slot hSlot
        cases List.mem_singleton.mp hSlot
        exact hAwaits rfl
  · exact beginClause_follows hClause arguments nofun

omit hCall in
/-- A call that is done at once. -/
theorem done_follows {r : γ.Record} {x : Run Value} {y : Watch → Run Value}
    (h : γ.Follows r x y) :
    γ.FollowsTo γ.Fits r (x >>= fun value => pure (.done value))
      fun w => y w >>= fun value => pure (.done value) :=
  .after h fun _ _ _ => .pure fun _ _ => trivial

/-- What is not a function of the program is called as it is. -/
theorem beginByName_follows (fuel : Nat) {r : γ.Record} {name : String} (arguments : List Value)
    {s : State} (hNone : s.program.function? name = none) (hValid : γ.Valid r s) :
    γ.FollowsAt γ.Fits r s (beginByName call fuel name arguments)
      fun w => beginByName (callW w) fuel name arguments := by
  obtain ⟨run, hCalls, hRun⟩ := exists_callsByName s name arguments
  refine .of_apply (hRun call fuel) (fun w => hRun (callW w) fuel) ?_
  refine (?_ : γ.FollowsTo γ.Fits r (run call fuel) fun w => run (callW w) fuel) s hValid
  cases hCalls with
  | function hFunction =>
      rw [hNone] at hFunction
      cases hFunction
  | @tag parent => exact done_follows (tagChecked_follows name parent arguments)
  | host =>
      refine FollowsTo.after (.mapError (ofExcept_follows _)) fun value r' _ => ?_
      exact done_follows (newValue_follows value)
  | @builtin b => exact done_follows (.mapError (builtin_follows hCall fuel b arguments))
  | refused error => exact FollowsTo.fail error

/-- **What a call begins with** is the same if the calls in it are, and it goes on with a
body that may be evaluated. -/
theorem beginCall_follows (fuel : Nat) {r : γ.Record} (function : Value) (arguments : List Value) :
    γ.FollowsTo γ.Fits r (beginCall call fuel function arguments)
      fun w => w.beginCall (callW w) fuel function arguments := by
  unfold beginCall Watch.beginCall
  cases function.untagged with
  | lambda id =>
      refine fun s hValid => .get_bind ?_
      cases hClosure : s.closures[id]? with
      | none => exact FollowsTo.fail _ s hValid
      | some closure =>
          exact beginClosure_follows hCall (γ.makes_closure hValid hClosure) arguments s hValid
  | func name =>
      intro s hValid
      cases hFunction : s.program.function? name with
      | none =>
          obtain ⟨r', hLe, hEnd, hFits, hSame⟩ :=
            beginByName_follows hCall fuel arguments hFunction hValid
          refine ⟨r', hLe, hEnd, hFits, fun w hSees => ?_⟩
          simp only [Run.get_bind_apply, hFunction]
          exact hSame w hSees
      | some f =>
          refine .get_bind ?_
          simp only [hFunction]
          refine beginFunction_follows hCall fuel (fun clause hMem => ?_) f.litAt arguments s hValid
          exact γ.makes_clause hValid hFunction hMem
  | _ => exact .after .get fun s r' _ => .fail _

end

end Guide

end ClauseLisp
