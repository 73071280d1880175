import Siralos.Conversation
import Siralos.Text
import Siralos.Transcript
import Mathlib.Data.List.Perm.Subperm

/-!
# Reduced conversations

A conversation over its budget is scanned once: user messages stay, an assistant message stays when
it fits where it stands, and a tool call waits for its result to stay or go with it.
-/

set_option autoImplicit false

namespace Siralos.Trim

open Provider Conversation Projection Transcript

structure TrimResult where
  items : List ConversationItem
  estimatedTokens : ℕ
  droppedItems : ℕ

structure TrimState where
  kept : List ConversationItem
  pending : TextMap ConversationItem
  tokens : ℕ

def TrimState.push (state : TrimState) (items : List ConversationItem) (tokens : ℕ) : TrimState :=
  { state with kept := state.kept ++ items, tokens := state.tokens + tokens }

section Scan

variable (serde : SerdeJson) (maxTokens : ℕ)

def trimItem (state : TrimState) (item : ConversationItem) : TrimState :=
  match item with
  | .assistantToolCall callId _ _ => { state with pending := state.pending.insert callId item }
  | .toolResult callId _ _ =>
    match state.pending.lookup callId with
    | some call =>
      let removed := { state with pending := state.pending.erase callId }
      let pairTokens := estimateConversationTokens serde [call, item]
      if removed.tokens + pairTokens ≤ maxTokens then removed.push [call, item] pairTokens
      else removed
    | none => state.push [item] (estimateConversationItemTokens serde item)
  | .userMessage _ => state.push [item] (estimateConversationItemTokens serde item)
  | .assistantMessage _ =>
    let itemTokens := estimateConversationItemTokens serde item
    if state.tokens + itemTokens ≤ maxTokens then state.push [item] itemTokens else state

def trimScan (state : TrimState) (items : List ConversationItem) : TrimState :=
  items.foldl (trimItem serde maxTokens) state

/-- What fits is not even validated; what does not fit and is not valid stays as it is. -/
def trimConversationPreservingPairs (items : List ConversationItem) : TrimResult :=
  let originalTokens := estimateConversationTokens serde items
  if originalTokens ≤ maxTokens then ⟨items, originalTokens, 0⟩
  else
    match validateConversationItems items with
    | .error _ => ⟨items, originalTokens, 0⟩
    | .ok _ =>
      let scanned := trimScan serde maxTokens ⟨[], ∅, 0⟩ items
      ⟨scanned.kept, scanned.tokens, items.length - scanned.kept.length⟩

end Scan

def callIdOf : ConversationItem → Option Text
  | .assistantToolCall callId _ _ => some callId
  | .toolResult callId _ _ => some callId
  | _ => none

def isUser : ConversationItem → Bool
  | .userMessage _ => true
  | _ => false

def isCall : ConversationItem → Bool
  | .assistantToolCall _ _ _ => true
  | _ => false

section Positions

variable (items : List ConversationItem)

/-- Nothing of this call id stands strictly between the two positions. -/
def Quiet (i j : ℕ) (callId : Text) : Prop :=
  ∀ k, i < k → k < j → (items[k]?).bind callIdOf ≠ some callId

/-- A result and the call that it answers: the last one of its id before it. -/
structure Partners (i j : ℕ) : Prop where
  before : i < j
  matched : ∃ callId, (∃ name input, items[i]? = some (.assistantToolCall callId name input)) ∧
    (∃ name result, items[j]? = some (.toolResult callId name result)) ∧ Quiet items i j callId

def callAt (i : ℕ) : Bool := (items[i]?).any isCall

/-- The kept items are the items at these positions. A user message stays, a call stays if and only
if its result does, and what is no call keeps its order. -/
structure Selected (n : ℕ) (kept : List ConversationItem) (positions : List ℕ) : Prop where
  taken : kept.map some = positions.map fun i => items[i]?
  distinct : positions.Nodup
  below : ∀ i ∈ positions, i < n
  users : ∀ i content, i < n → items[i]? = some (.userMessage content) → i ∈ positions
  partners : ∀ i j, j < n → Partners items i j → (i ∈ positions ↔ j ∈ positions)
  ordered : (positions.filter fun i => !callAt items i).Pairwise (· < ·)

variable {items}

theorem Partners.not_call {i j : ℕ} (h : Partners items i j) : callAt items j = false := by
  obtain ⟨callId, -, ⟨name, result, hresult⟩, -⟩ := h.matched
  rw [callAt, hresult]
  rfl

theorem Partners.unique {i p n : ℕ} {callId name : Text} {result : ToolExecutionResult}
    (hitem : items[n]? = some (.toolResult callId name result)) (hpn : p < n)
    (hp : ∃ name input, items[p]? = some (.assistantToolCall callId name input))
    (hquiet : Quiet items p n callId) (h : Partners items i n) : i = p := by
  obtain ⟨other, ⟨name', input, hi⟩, ⟨name'', result', hn⟩, hother⟩ := h.matched
  rw [hitem, Option.some.injEq, ConversationItem.toolResult.injEq] at hn
  obtain ⟨rfl, -⟩ := hn
  obtain ⟨name, input', hp⟩ := hp
  rcases Nat.lt_trichotomy i p with hlt | heq | hgt
  · exact absurd (by rw [hp]; rfl) (hother p hlt hpn)
  · exact heq
  · exact absurd (by rw [hi]; rfl) (hquiet i hgt h.before)

section Growing

variable {n : ℕ} {kept : List ConversationItem} {positions : List ℕ} {item : ConversationItem}

theorem Selected.skip (h : Selected items n kept positions) (hitem : items[n]? = some item)
    (huser : isUser item = false) (hpartners : ∀ i, Partners items i n → i ∉ positions) :
    Selected items (n + 1) kept positions where
  taken := h.taken
  distinct := h.distinct
  below := fun i hi => (h.below i hi).trans (Nat.lt_succ_self n)
  users := by
    intro i content hi hcontent
    rcases Nat.lt_succ_iff_lt_or_eq.mp hi with hlt | rfl
    · exact h.users i content hlt hcontent
    · rw [hitem, Option.some.injEq] at hcontent
      rw [hcontent] at huser
      cases huser
  partners := by
    intro i j hj hpartner
    rcases Nat.lt_succ_iff_lt_or_eq.mp hj with hlt | rfl
    · exact h.partners i j hlt hpartner
    · exact iff_of_false (hpartners i hpartner) fun hmem => (h.below j hmem).false
  ordered := h.ordered

theorem ordered_last (h : Selected items n kept positions) :
    ((positions.filter fun i => !callAt items i) ++ [n]).Pairwise (· < ·) := by
  rw [List.pairwise_append]
  refine ⟨h.ordered, List.pairwise_singleton _ _, ?_⟩
  intro i hi j hj
  rw [List.mem_singleton.mp hj]
  exact h.below i (List.mem_of_mem_filter hi)

theorem Selected.push (h : Selected items n kept positions) (hitem : items[n]? = some item)
    (hcall : isCall item = false) (hpartners : ∀ i, ¬ Partners items i n) :
    Selected items (n + 1) (kept ++ [item]) (positions ++ [n]) where
  taken := by rw [List.map_append, List.map_append, h.taken, List.map_singleton,
    List.map_singleton, hitem]
  distinct := by
    rw [List.nodup_append]
    refine ⟨h.distinct, List.nodup_singleton n, ?_⟩
    intro i hi j hj
    rw [List.mem_singleton.mp hj]
    exact (h.below i hi).ne
  below := by
    intro i hi
    rcases List.mem_append.mp hi with hi | hi
    · exact (h.below i hi).trans (Nat.lt_succ_self n)
    · rw [List.mem_singleton.mp hi]
      exact Nat.lt_succ_self n
  users := by
    intro i content hi hcontent
    rw [List.mem_append, List.mem_singleton]
    rcases Nat.lt_succ_iff_lt_or_eq.mp hi with hlt | rfl
    · exact .inl (h.users i content hlt hcontent)
    · exact .inr rfl
  partners := by
    intro i j hj hpartner
    rcases Nat.lt_succ_iff_lt_or_eq.mp hj with hlt | rfl
    · have hi := hpartner.before
      simp only [List.mem_append, List.mem_singleton]
      rw [h.partners i j hlt hpartner, or_iff_left (by omega), or_iff_left (by omega)]
    · exact absurd hpartner (hpartners i)
  ordered := by
    have hn : callAt items n = false := by rw [callAt, hitem, Option.any_some, hcall]
    rw [List.filter_append, List.filter_singleton, hn]
    exact ordered_last h

theorem Selected.pair {p : ℕ} {callId name name' : Text} {input : AssistantToolCallInput}
    {result : ToolExecutionResult} (h : Selected items n kept positions)
    (hitem : items[n]? = some (.toolResult callId name' result)) (hpn : p < n)
    (hp : items[p]? = some (.assistantToolCall callId name input)) (hfresh : p ∉ positions)
    (hquiet : Quiet items p n callId) :
    Selected items (n + 1)
      (kept ++ [.assistantToolCall callId name input, .toolResult callId name' result])
      (positions ++ [p, n]) where
  taken := by
    rw [List.map_append, List.map_append, h.taken]
    simp only [List.map_cons, List.map_nil, hitem, hp]
  distinct := by
    rw [List.nodup_append]
    refine ⟨h.distinct, by simp [hpn.ne], ?_⟩
    intro i hi j hj
    have hlt := h.below i hi
    rcases List.mem_cons.mp hj with rfl | hj
    · exact fun heq => hfresh (heq ▸ hi)
    · rw [List.mem_singleton.mp hj]
      exact hlt.ne
  below := by
    intro i hi
    rcases List.mem_append.mp hi with hi | hi
    · exact (h.below i hi).trans (Nat.lt_succ_self n)
    · simp only [List.mem_cons, List.not_mem_nil, or_false] at hi
      omega
  users := by
    intro i content hi hcontent
    rcases Nat.lt_succ_iff_lt_or_eq.mp hi with hlt | rfl
    · exact List.mem_append_left _ (h.users i content hlt hcontent)
    · rw [hitem] at hcontent
      cases hcontent
  partners := by
    intro i j hj hpartner
    rcases Nat.lt_succ_iff_lt_or_eq.mp hj with hlt | rfl
    · -- the new pair is nobody else's partner: nothing of its id stands between the two
      have hip : i ≠ p := by
        rintro rfl
        obtain ⟨other, ⟨_, _, hi⟩, ⟨_, _, hresult⟩, -⟩ := hpartner.matched
        rw [hp, Option.some.injEq, ConversationItem.assistantToolCall.injEq] at hi
        exact hquiet j hpartner.before hlt (by rw [hresult, hi.1]; rfl)
      have hjp : j ≠ p := by
        rintro rfl
        have hnot := hpartner.not_call
        rw [callAt, hp] at hnot
        cases hnot
      have hi := hpartner.before
      simp only [List.mem_append, List.mem_cons, List.not_mem_nil, or_false]
      rw [h.partners i j hlt hpartner, or_iff_left (by omega), or_iff_left (by omega)]
    · have hip := hpartner.unique hitem hpn ⟨_, _, hp⟩ hquiet
      simp [hip]
  ordered := by
    have hn : callAt items n = false := by rw [callAt, hitem]; rfl
    have hcall : callAt items p = true := by rw [callAt, hp]; rfl
    rw [List.filter_append, List.filter_cons, List.filter_singleton, hn, hcall]
    exact ordered_last h

end Growing

/-- A waiting call stands before, is not kept, and nothing of its id has followed it. -/
structure Waiting (items : List ConversationItem) (n : ℕ) (positions : List ℕ) (callId : Text)
    (call : ConversationItem) (p : ℕ) : Prop where
  before : p < n
  called : ∃ name input, call = .assistantToolCall callId name input
  stands : items[p]? = some call
  named : callId ≠ []
  fresh : p ∉ positions
  quiet : Quiet items p n callId

def Held (items : List ConversationItem) (n : ℕ) (positions : List ℕ)
    (pending : TextMap ConversationItem) : Prop :=
  ∀ callId call, pending.lookup callId = some call → ∃ p, Waiting items n positions callId call p

section Waiting

variable {n p : ℕ} {positions more : List ℕ} {callId : Text} {call item : ConversationItem}
  {pending : TextMap ConversationItem}

theorem Waiting.later (h : Waiting items n positions callId call p) (hitem : items[n]? = some item)
    (hother : callIdOf item ≠ some callId) (hmore : p ∉ more) :
    Waiting items (n + 1) (positions ++ more) callId call p where
  before := h.before.trans (Nat.lt_succ_self n)
  called := h.called
  stands := h.stands
  named := h.named
  fresh := by
    rw [List.mem_append, not_or]
    exact ⟨h.fresh, hmore⟩
  quiet := by
    intro k hpk hkn
    rcases Nat.lt_succ_iff_lt_or_eq.mp hkn with hlt | rfl
    · exact h.quiet k hpk hlt
    · rw [hitem]
      exact hother

theorem Held.later (h : Held items n positions pending) (hitem : items[n]? = some item)
    (hother : callIdOf item = none) (hmore : ∀ i ∈ more, n ≤ i) :
    Held items (n + 1) (positions ++ more) pending := by
  intro callId call hlookup
  obtain ⟨p, hp⟩ := h callId call hlookup
  refine ⟨p, hp.later hitem (by simp [hother]) fun hmem => ?_⟩
  exact absurd hp.before (not_lt.mpr (hmore p hmem))

theorem Held.insert {name : Text} {input : AssistantToolCallInput}
    (h : Held items n positions pending) (hbelow : ∀ i ∈ positions, i < n)
    (hitem : items[n]? = some (.assistantToolCall callId name input)) (hnamed : callId ≠ []) :
    Held items (n + 1) positions (pending.insert callId (.assistantToolCall callId name input)) := by
  intro other call hlookup
  by_cases hsame : other = callId
  · subst hsame
    rw [AList.lookup_insert, Option.some.injEq] at hlookup
    refine ⟨n, Nat.lt_succ_self n, ⟨name, input, hlookup.symm⟩, hlookup ▸ hitem, hnamed,
      fun hmem => (hbelow n hmem).false, ?_⟩
    intro k hnk hkn
    omega
  · rw [AList.lookup_insert_ne hsame] at hlookup
    obtain ⟨p, hp⟩ := h other call hlookup
    have hlater := hp.later hitem (by simpa [callIdOf] using Ne.symm hsame) List.not_mem_nil
    rw [List.append_nil] at hlater
    exact ⟨p, hlater⟩

/-- The answered call leaves; the calls that still wait have other ids. -/
theorem Held.erase {name name' : Text} {input : AssistantToolCallInput}
    {result : ToolExecutionResult} (h : Held items n positions pending)
    (hitem : items[n]? = some (.toolResult callId name' result))
    (hp : items[p]? = some (.assistantToolCall callId name input))
    (hmore : ∀ i ∈ more, i = p ∨ i = n) :
    Held items (n + 1) (positions ++ more) (pending.erase callId) := by
  intro other call hlookup
  by_cases hsame : other = callId
  · rw [hsame, AList.lookup_erase] at hlookup
    cases hlookup
  · rw [AList.lookup_erase_ne hsame] at hlookup
    obtain ⟨q, hq⟩ := h other call hlookup
    refine ⟨q, hq.later hitem (by simpa [callIdOf] using Ne.symm hsame) ?_⟩
    intro hmem
    rcases hmore q hmem with rfl | rfl
    · obtain ⟨otherName, otherInput, hcall⟩ := hq.called
      have hstands := hq.stands
      rw [hp, hcall, Option.some.injEq, ConversationItem.assistantToolCall.injEq] at hstands
      exact hsame hstands.1.symm
    · exact hq.before.false

end Waiting

end Positions

def openIds (pending : List PendingCall) : List Text :=
  (pending.filter fun call => !call.resolved).map PendingCall.callId

theorem open_resolve {callId : Text} {left next : List PendingCall}
    (h : resolveCall callId left = some next) :
    callId ∈ openIds left ∧ openIds next = (openIds left).erase callId := by
  induction left generalizing next with
  | nil => cases h
  | cons call left ih =>
    rw [resolveCall] at h
    by_cases hcall : call.callId = callId ∧ call.resolved = false
    · rw [if_pos hcall, Option.some.injEq] at h
      rw [← h]
      simp [openIds, hcall.1, hcall.2]
    · rw [if_neg hcall] at h
      obtain ⟨rest, hrest, hnext⟩ := Option.map_eq_some_iff.mp h
      obtain ⟨hmem, herase⟩ := ih hrest
      rw [← hnext]
      cases hresolved : call.resolved with
      | true =>
        simp only [openIds, List.filter_cons, hresolved] at hmem herase ⊢
        exact ⟨hmem, herase⟩
      | false =>
        have hid : call.callId ≠ callId := fun hid => hcall ⟨hid, hresolved⟩
        simp only [openIds, List.filter_cons, hresolved] at hmem herase ⊢
        simp [hid, herase, hmem]

/-- The scan holds every call that the validation has open. -/
structure Opens (left : List PendingCall) (pending : TextMap ConversationItem) : Prop where
  distinct : (openIds left).Nodup
  held : ∀ callId ∈ openIds left, callId ∈ pending

theorem Opens.insert {left : List PendingCall} {pending : TextMap ConversationItem}
    {callId toolName : Text} (call : ConversationItem) (h : Opens left pending)
    (hfresh : (left.any fun call => call.callId == callId && !call.resolved) = false) :
    Opens (left ++ [⟨callId, toolName, false⟩]) (pending.insert callId call) := by
  have hopen : openIds (left ++ [⟨callId, toolName, false⟩]) = openIds left ++ [callId] := by
    simp [openIds]
  have hnot : callId ∉ openIds left := by
    intro hmem
    obtain ⟨waiting, hwaiting, hid⟩ := List.mem_map.mp hmem
    obtain ⟨hmem, hresolved⟩ := List.mem_filter.mp hwaiting
    have hnone := List.any_eq_false.mp hfresh waiting hmem
    simp [hid, hresolved] at hnone
  constructor
  · rw [hopen]
    exact List.nodup_append.mpr ⟨h.distinct, List.nodup_singleton _, fun a ha b hb heq =>
      hnot (List.mem_singleton.mp hb ▸ heq ▸ ha)⟩
  · intro other hmem
    rw [hopen, List.mem_append, List.mem_singleton] at hmem
    rw [AList.mem_insert]
    rcases hmem with hmem | rfl
    · exact .inr (h.held other hmem)
    · exact .inl rfl

theorem Opens.erase {left next : List PendingCall} {pending : TextMap ConversationItem}
    {callId : Text} (h : Opens left pending) (hresolve : resolveCall callId left = some next) :
    Opens next (pending.erase callId) := by
  have herase := (open_resolve hresolve).2
  constructor
  · rw [herase]
    exact h.distinct.erase callId
  · intro other hmem
    rw [herase, h.distinct.mem_erase_iff] at hmem
    rw [AList.mem_erase]
    exact ⟨hmem.1, h.held other hmem.2⟩

section Law

variable (serde : SerdeJson) (maxTokens : ℕ)

/-- What is kept is a beginning that fits and user messages behind it. -/
def Fitting (kept : List ConversationItem) : Prop :=
  ∃ covered users, kept = covered ++ users ∧
    estimateConversationTokens serde covered ≤ maxTokens ∧ ∀ item ∈ users, isUser item = true

structure Accounts (kept : List ConversationItem) (tokens : ℕ) : Prop where
  settled : Settled kept
  counted : tokens = estimateConversationTokens serde kept
  fitting : Fitting serde maxTokens kept

structure Scanned (items : List ConversationItem) (n : ℕ) (state : TrimState)
    (left : List PendingCall) (positions : List ℕ) : Prop where
  selected : Selected items n state.kept positions
  held : Held items n positions state.pending
  opens : Opens left state.pending
  accounts : Accounts serde maxTokens state.kept state.tokens

theorem estimate_append (items more : List ConversationItem) :
    estimateConversationTokens serde (items ++ more) =
      estimateConversationTokens serde items + estimateConversationTokens serde more := by
  rw [estimateConversationTokens, List.map_append, List.sum_append]
  rfl

theorem estimate_single (item : ConversationItem) : estimateConversationTokens serde [item] =
    estimateConversationItemTokens serde item := by
  simp [estimateConversationTokens]

theorem settled_pair (callId name name' : Text) (input : AssistantToolCallInput)
    (result : ToolExecutionResult) (hnamed : callId ≠ []) :
    Settled [.assistantToolCall callId name input, .toolResult callId name' result] := by
  refine ⟨[⟨callId, name, true⟩], ?_, by simp [Closed]⟩
  simp [absorb, validateItem, hnamed, resolveCall]

variable {serde maxTokens}

theorem Accounts.fits {kept more : List ConversationItem} {tokens : ℕ}
    (h : Accounts serde maxTokens kept tokens) (hmore : Settled more)
    (hfits : tokens + estimateConversationTokens serde more ≤ maxTokens) :
    Accounts serde maxTokens (kept ++ more) (tokens + estimateConversationTokens serde more) where
  settled := settled_append _ _ h.settled hmore
  counted := by rw [estimate_append, h.counted]
  fitting := by
    refine ⟨kept ++ more, [], (List.append_nil _).symm, ?_, by simp⟩
    rw [estimate_append, ← h.counted]
    exact hfits

theorem Accounts.user {kept : List ConversationItem} {tokens : ℕ} {content : Text}
    (h : Accounts serde maxTokens kept tokens) :
    Accounts serde maxTokens (kept ++ [.userMessage content])
      (tokens + estimateConversationItemTokens serde (.userMessage content)) where
  settled := settled_append _ _ h.settled (settled_user content)
  counted := by rw [estimate_append, estimate_single, h.counted]
  fitting := by
    obtain ⟨covered, users, hkept, hfits, husers⟩ := h.fitting
    refine ⟨covered, users ++ [.userMessage content], by rw [hkept, List.append_assoc], hfits, ?_⟩
    intro item hitem
    rcases List.mem_append.mp hitem with hitem | hitem
    · exact husers item hitem
    · rw [List.mem_singleton.mp hitem]
      rfl

section Step

variable {items : List ConversationItem} {n : ℕ} {state : TrimState}
  {left next : List PendingCall} {positions : List ℕ}

theorem no_partner {item : ConversationItem} (hitem : items[n]? = some item)
    (hid : callIdOf item = none) (i : ℕ) : ¬ Partners items i n := by
  intro hpartner
  obtain ⟨callId, -, ⟨name, result, hresult⟩, -⟩ := hpartner.matched
  rw [hitem, Option.some.injEq] at hresult
  rw [hresult] at hid
  cases hid

theorem Scanned.user {content : Text} (h : Scanned serde maxTokens items n state left positions)
    (hitem : items[n]? = some (.userMessage content))
    (hvalid : validateItem left (.userMessage content) = .ok next) :
    Scanned serde maxTokens items (n + 1) (trimItem serde maxTokens state (.userMessage content))
      next (positions ++ [n]) where
  selected := h.selected.push hitem rfl (no_partner hitem rfl)
  held := h.held.later hitem rfl (by simp)
  opens := by
    rw [validateItem] at hvalid
    split at hvalid
    · cases hvalid
    · rw [← Except.ok.inj hvalid]
      exact h.opens
  accounts := h.accounts.user

theorem Scanned.assistant {content : Text}
    (h : Scanned serde maxTokens items n state left positions)
    (hitem : items[n]? = some (.assistantMessage content))
    (hvalid : validateItem left (.assistantMessage content) = .ok next) :
    ∃ positions', Scanned serde maxTokens items (n + 1)
      (trimItem serde maxTokens state (.assistantMessage content)) next positions' := by
  have hnext : left = next := Except.ok.inj hvalid
  rw [trimItem]
  by_cases hfits : state.tokens + estimateConversationItemTokens serde (.assistantMessage content)
      ≤ maxTokens
  · rw [if_pos hfits]
    refine ⟨positions ++ [n], h.selected.push hitem rfl (no_partner hitem rfl),
      h.held.later hitem rfl (by simp), hnext ▸ h.opens, ?_⟩
    have haccounts := h.accounts.fits (settled_assistant content) (by rwa [estimate_single])
    rwa [estimate_single] at haccounts
  · rw [if_neg hfits]
    have hheld := h.held.later hitem rfl (List.forall_mem_nil _)
    rw [List.append_nil] at hheld
    exact ⟨positions, h.selected.skip hitem rfl fun i hpartner =>
      absurd hpartner (no_partner hitem rfl i), hheld, hnext ▸ h.opens, h.accounts⟩

theorem Scanned.call {callId name : Text} {input : AssistantToolCallInput}
    (h : Scanned serde maxTokens items n state left positions)
    (hitem : items[n]? = some (.assistantToolCall callId name input))
    (hvalid : validateItem left (.assistantToolCall callId name input) = .ok next) :
    Scanned serde maxTokens items (n + 1)
      (trimItem serde maxTokens state (.assistantToolCall callId name input)) next positions := by
  rw [validateItem] at hvalid
  by_cases hnamed : callId = []
  · rw [if_pos hnamed] at hvalid
    cases hvalid
  · rw [if_neg hnamed] at hvalid
    split at hvalid
    · cases hvalid
    · rename_i hfresh
      rw [← Except.ok.inj hvalid]
      refine ⟨h.selected.skip hitem rfl ?_, h.held.insert h.selected.below hitem hnamed,
        h.opens.insert _ (by simpa using hfresh), h.accounts⟩
      intro i hpartner
      have hnot := hpartner.not_call
      rw [callAt, hitem] at hnot
      cases hnot

theorem Scanned.result {callId name : Text} {result : ToolExecutionResult}
    (h : Scanned serde maxTokens items n state left positions)
    (hitem : items[n]? = some (.toolResult callId name result))
    (hvalid : validateItem left (.toolResult callId name result) = .ok next) :
    ∃ positions', Scanned serde maxTokens items (n + 1)
      (trimItem serde maxTokens state (.toolResult callId name result)) next positions' := by
  obtain ⟨opened, hresolve, hopened⟩ : ∃ opened, resolveCall callId left = some opened ∧
      opened = next := by
    rw [validateItem] at hvalid
    cases hresolve : resolveCall callId left with
    | none =>
      rw [hresolve] at hvalid
      cases hvalid
    | some opened =>
      rw [hresolve] at hvalid
      exact ⟨opened, rfl, Except.ok.inj hvalid⟩
  subst hopened
  have hpending := h.opens.held callId (open_resolve hresolve).1
  obtain ⟨call, hlookup⟩ := Option.isSome_iff_exists.mp (AList.lookup_isSome.mpr hpending)
  obtain ⟨p, hp⟩ := h.held callId call hlookup
  obtain ⟨callName, input, rfl⟩ := hp.called
  have hopens := h.opens.erase hresolve
  rw [trimItem, hlookup]
  by_cases hfits : state.tokens + estimateConversationTokens serde
      [.assistantToolCall callId callName input, .toolResult callId name result] ≤ maxTokens
  · refine ⟨positions ++ [p, n], ?_⟩
    simp only [hfits, if_true]
    exact ⟨h.selected.pair hitem hp.before hp.stands hp.fresh hp.quiet,
      h.held.erase hitem hp.stands (by simp), hopens,
      h.accounts.fits (settled_pair callId callName name input result hp.named) hfits⟩
  · refine ⟨positions, ?_⟩
    simp only [hfits, if_false]
    have hheld := h.held.erase hitem hp.stands (List.forall_mem_nil _)
    rw [List.append_nil] at hheld
    refine ⟨h.selected.skip hitem rfl ?_, hheld, hopens, h.accounts⟩
    intro i hpartner
    rw [hpartner.unique hitem hp.before ⟨_, _, hp.stands⟩ hp.quiet]
    exact hp.fresh

theorem scanned_step {item : ConversationItem}
    (h : Scanned serde maxTokens items n state left positions) (hitem : items[n]? = some item)
    (hvalid : validateItem left item = .ok next) :
    ∃ positions', Scanned serde maxTokens items (n + 1) (trimItem serde maxTokens state item) next
      positions' := by
  cases item with
  | userMessage content => exact ⟨_, h.user hitem hvalid⟩
  | assistantMessage content => exact h.assistant hitem hvalid
  | assistantToolCall callId name input => exact ⟨_, h.call hitem hvalid⟩
  | toolResult callId name result => exact h.result hitem hvalid

end Step

theorem scanned_run (more : List ConversationItem) {done : List ConversationItem}
    {state : TrimState} {left final : List PendingCall} {positions : List ℕ}
    (h : Scanned serde maxTokens (done ++ more) done.length state left positions)
    (hvalid : absorb left more = .ok final) :
    ∃ positions', Scanned serde maxTokens (done ++ more) (done ++ more).length
      (trimScan serde maxTokens state more) final positions' := by
  induction more generalizing done state left positions with
  | nil =>
    rw [List.append_nil] at h ⊢
    exact ⟨positions, Except.ok.inj hvalid ▸ h⟩
  | cons item more ih =>
    rw [absorb] at hvalid
    cases hitem : validateItem left item with
    | error failure =>
      rw [hitem] at hvalid
      cases hvalid
    | ok next =>
      rw [hitem] at hvalid
      have hat : (done ++ item :: more)[done.length]? = some item := by simp
      obtain ⟨positions', hstep⟩ := scanned_step h hat hitem
      have hsplit : done ++ item :: more = (done ++ [item]) ++ more := by simp
      rw [hsplit] at hstep ⊢
      rw [trimScan, List.foldl_cons]
      exact ih (by rwa [List.length_append, List.length_singleton]) hvalid

theorem scanned_start (items : List ConversationItem) :
    Scanned serde maxTokens items 0 ⟨[], ∅, 0⟩ [] [] where
  selected := ⟨rfl, List.nodup_nil, by simp, by simp, by simp, by simp⟩
  held := by
    intro callId call h
    rw [AList.lookup_empty] at h
    cases h
  opens := ⟨List.nodup_nil, by simp [openIds]⟩
  accounts := ⟨settled_nil, rfl, [], [], rfl, Nat.zero_le _, by simp⟩

end Law

theorem selected_all (items : List ConversationItem) :
    Selected items items.length items (List.range items.length) where
  taken := by
    apply List.ext_getElem?
    intro i
    rw [List.getElem?_map, List.getElem?_map]
    by_cases hi : i < items.length
    · rw [List.getElem?_range hi, Option.map_some, List.getElem?_eq_getElem hi, Option.map_some]
    · rw [List.getElem?_eq_none (by omega), List.getElem?_eq_none (by simpa using hi)]
      rfl
  distinct := List.nodup_range
  below := fun i hi => List.mem_range.mp hi
  users := fun i _ hi _ => List.mem_range.mpr hi
  partners := by
    intro i j hj hpartner
    exact iff_of_true (List.mem_range.mpr (hpartner.before.trans hj)) (List.mem_range.mpr hj)
  ordered := List.pairwise_lt_range.filter _

/-- The kept items are a selection of the given ones that validates again, is counted right, and
fits but for user messages at its end. -/
structure Reduced (serde : SerdeJson) (maxTokens : ℕ) (items : List ConversationItem)
    (result : TrimResult) : Prop where
  selected : ∃ positions, Selected items items.length result.items positions
  valid : validateConversationItems result.items = .ok ()
  counted : result.estimatedTokens = estimateConversationTokens serde result.items
  dropped : result.droppedItems + result.items.length = items.length
  fitting : Fitting serde maxTokens result.items

theorem Selected.length_le {items kept : List ConversationItem} {positions : List ℕ}
    (h : Selected items items.length kept positions) : kept.length ≤ items.length := by
  have hlength := congrArg List.length h.taken
  rw [List.length_map, List.length_map] at hlength
  have hsub : positions ⊆ List.range items.length := fun i hi => List.mem_range.mpr (h.below i hi)
  have hle := (h.distinct.subperm hsub).length_le
  rwa [List.length_range, ← hlength] at hle

theorem trim_reduces (serde : SerdeJson) (maxTokens : ℕ) (items : List ConversationItem)
    (hvalid : validateConversationItems items = .ok ()) :
    Reduced serde maxTokens items (trimConversationPreservingPairs serde maxTokens items) := by
  rw [trimConversationPreservingPairs]
  by_cases hfits : estimateConversationTokens serde items ≤ maxTokens
  · rw [if_pos hfits]
    exact ⟨⟨_, selected_all items⟩, hvalid, rfl, by simp, items, [], by simp, hfits, by simp⟩
  · rw [if_neg hfits, hvalid]
    obtain ⟨final, habsorb, -⟩ := (validate_ok_iff items).mp hvalid
    have hstart : Scanned serde maxTokens ([] ++ items) ([] : List ConversationItem).length
        ⟨[], ∅, 0⟩ [] [] := scanned_start items
    obtain ⟨positions, hscanned⟩ := scanned_run items hstart habsorb
    have hselected : Selected items items.length _ positions := hscanned.selected
    have hlength := hselected.length_le
    exact ⟨⟨positions, hselected⟩, (validate_ok_iff _).mpr hscanned.accounts.settled,
      hscanned.accounts.counted, Nat.sub_add_cancel hlength, hscanned.accounts.fitting⟩

def plainText : SerdeJson := ⟨fun _ => none, fun _ => []⟩

def overrunning : List ConversationItem := [.assistantMessage "a", .userMessage "u"]

/-- Two rounds of one call each, and a question. -/
def calledHistory : List ConversationItem :=
  [.userMessage "list", .assistantToolCall "c1" "list_files" (.present (.object [])),
    .toolResult "c1" "list_files" (.success (.string "a b") "listed"), .assistantMessage "a and b",
    .userMessage "read a", .assistantToolCall "c2" "read_file" (.present (.object [])),
    .toolResult "c2" "read_file" (.success (.string "x") "read")]

/-- The round that does not fit goes as a whole, and its question stays. -/
theorem trim_reduces_overrunning :
    Reduced plainText 14 calledHistory (trimConversationPreservingPairs plainText 14 calledHistory) ∧
      (trimConversationPreservingPairs plainText 14 calledHistory).droppedItems = 2 ∧
      Reduced plainText 1 overrunning (trimConversationPreservingPairs plainText 1 overrunning) :=
  ⟨trim_reduces plainText 14 calledHistory (by decide), by decide,
    trim_reduces plainText 1 overrunning (by decide)⟩

theorem users_fit_not_enough :
    ¬ ∀ serde maxTokens items, validateConversationItems items = .ok () →
      estimateConversationTokens serde (items.filter isUser) ≤ maxTokens →
        estimateConversationTokens serde
          (trimConversationPreservingPairs serde maxTokens items).items ≤ maxTokens := by
  intro hclaim
  exact absurd (hclaim plainText 1 overrunning (by decide) (by decide)) (by decide)

end Siralos.Trim
