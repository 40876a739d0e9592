import Netknot.Http.Process
import Netknot.Win32.CallerRef

/-!
# What the Server Leaks

A submit call hands its task back with a reference of the caller. `onAccepted` drops that of the
next accept, and `readNext()` that of another read: they receive the task in an `RcObjectPtr`. The
first read of a connection, the read of a body and the write of a response are received in a
plain pointer, and nobody drops their references.

Here the process runs with a note of these tasks, and nobody drops what came back in a pointer.

## Main results

* `Process.Forgets.step`: which tasks are noted, and that they are not dropped.
* `server_leaks`: one task of every connection is left for ever, one for its body and one for its
  response, and with each its callback.
-/

namespace Netknot.Http

open Win32 (OpId)

/-! ### The tasks nobody drops -/

/-- What `onStatusChanged` posts with a plain pointer for the task; `readNext()` has an
`RcObjectPtr` for it. -/
def Callback.inPointer : Callback → Bool
  | .operation _ (.body _) | .operation _ (.write _) => true
  | .operation _ .read | .accept => false

/-- The submit calls with a plain pointer for their task. -/
abbrev Forgotten := OpId → Option Callback

/-- The read that `onAccepted` posts is noted, and what `onStatusChanged` posts if it is in
a pointer. -/
def noteForgotten {n : ℕ} (x : Forgotten) (_ : Process n) (l : ProcessLabel n) (q : Process n) :
    Forgotten :=
  match l with
  | .service _ => x
  | .onAccepted _ _ _ read _ => Process.give x read (q.callback read)
  | .onStatusChanged _ _ _ next => Process.give x next ((q.callback next).filter (·.inPointer))

/-- The process, with a note of the tasks nobody drops. -/
def forgetting (n : ℕ) (env : Env) : Machine (Process n × Forgotten) (ProcessLabel n) :=
  (process n env).withHistory (fun _ => none) noteForgotten

/-- **The step condition**: what came back in a pointer is not dropped. -/
def Forgotten.leaves {n : ℕ} (x : Forgotten) : ProcessLabel n → Bool
  | .service (.submit o .release) => (x o).isNone
  | _ => true

/-- A submit call that had nothing has what it was given, and the others have what they had. -/
theorem give_eq_some_iff {callback : OpId → Option Callback} {o o' : OpId}
    {posted : Option Callback} {cb : Callback} (h : callback o = none) :
    Process.give callback o posted o' = some cb ↔
      callback o' = some cb ∨ o' = o ∧ posted = some cb := by
  by_cases heq : o' = o
  · subst heq
    cases posted with
    | none => simp [Process.give]
    | some cb' => simp [Process.give, h]
  · rw [Process.give_of_ne heq]
    simp [heq]

/-- The submit call that had nothing has what it was given. -/
theorem give_self {callback : OpId → Option Callback} {o : OpId} {posted : Option Callback}
    (h : callback o = none) : Process.give callback o posted o = posted := by
  cases posted with
  | none => exact h
  | some cb => exact Function.update_self _ _ _

/-- An operation was submitted if its post is in the log. -/
theorem mem_submitted {op : Op} {actions : List Action} :
    op ∈ submitted actions ↔ Action.post op ∈ actions := by
  rw [submitted, List.mem_filterMap]
  constructor
  · rintro ⟨a, ha, hop⟩
    cases a with
    | dispatch d => cases hop
    | post op' => exact Option.some.inj hop ▸ ha
  · exact fun ha => ⟨_, ha, rfl⟩

/-! ### What a callback posts -/

/-- **`onAccepted` posts** nothing, or the first read. -/
theorem posts_onAccepted {server : HttpServer} (h : server.Recorded) {c : ConnectionId}
    (hnew : (server.ledger c).accepted = false) (ch : AcceptChoices) :
    ((server.onAccepted c ch).2.operations c).outstanding =
        submitted ((server.onAccepted c ch).2.operations c).log ∧
      (((server.onAccepted c ch).2.operations c).log = [] ∨
        ((server.onAccepted c ch).2.operations c).log = [.post .read]) := by
  obtain ⟨hout, -, hlog⟩ := (h.sequential c).fresh (h.not_accepted hnew)
  rw [onAccepted_operations]
  split
  · rw [Function.update_self]
    cases ch.submit with
    | none => simp [Operations.accept, Operations.took, submitted, Action.op?, hout, hlog]
    | some e => simp [Operations.accept, Operations.took, submitted, hout, hlog]
  · rw [hout, hlog]
    exact ⟨rfl, .inl rfl⟩

namespace Process

variable {n : ℕ} {env : Env}

/-- **`onStatusChanged` posts** nothing, or one operation. -/
theorem Linked.posts_statusChanged {p : Process n} (h : p.Linked)
    (hrunning : p.server.terminated = false) {o : OpId} {c : ConnectionId} {op : Op}
    (hcb : p.expected o = some (.operation c op)) (ch : Choices) (sv : Bytes) (next : OpId) :
    ∃ actions, (submitted actions).length ≤ 1 ∧
      ((p.statusChanged env o c op ch sv next).server.operations c).log =
        (p.server.operations c).log ++ actions ∧
      ((p.statusChanged env o c op ch sv next).server.operations c).outstanding =
        submitted actions := by
  have hop : op ∈ (p.server.operations c).outstanding := h.awaited o _ hcb
  have hgoing : ((p.server.operations c).complete op sv).terminated = false := by
    refine Bool.eq_false_iff.mpr fun hend => ?_
    exact Bool.false_ne_true (hrunning.symm.trans (h.recorded.running c hend))
  have hmem : op ∈ ((p.server.operations c).complete op sv).completed :=
    List.mem_append_right _ (List.mem_singleton_self op)
  obtain ⟨hempty, -⟩ := ((h.recorded.sequential c).complete hop sv).alone hmem
  have hstep : ((p.server.operations c).complete op sv).step env
      (.callback op ch (p.service.calls o).task.status sv) =
        some ((p.statusChanged env o c op ch sv next).server.operations c) := by
    simp [Operations.step, hgoing, hmem, Process.statusChanged]
  obtain ⟨actions, hlog, hout, hone⟩ := submitted_of_callback hstep
  rw [hempty, List.nil_append] at hout
  exact ⟨actions, hone, hlog, hout⟩

/-! ### The invariant -/

/-- **The notes are right**: for every connection of which anything was posted there is one of its
first read, there is one of everything else that was posted in a pointer, and nobody has dropped
what is noted. -/
structure Forgets (p : Process n) (x : Forgotten) : Prop where
  linked : p.Linked
  service : (Win32.service n).Reachable p.service
  given : ∀ o, x o ≠ none → p.callback o ≠ none ∨ p.returned o ≠ none
  posted : ∀ c, ∀ op ∈ (p.server.operations c).outstanding,
    Action.post op ∈ (p.server.operations c).log
  fresh : ∀ c, (p.server.operations c).log = [] → ∀ o op, x o ≠ some (.operation c op)
  first : ∀ c, (p.server.operations c).log ≠ [] → ∃! o, x o = some (.operation c .read)
  others : ∀ c op, op ≠ .read → Action.post op ∈ (p.server.operations c).log →
    ∃ o, x o = some (.operation c op)
  kept : ∀ o, x o ≠ none → (p.service.calls o).released = false

section

variable {p : Process n} {x : Forgotten}

/-- A submit call that was not made is not noted. -/
theorem Forgets.eq_none (h : p.Forgets x) {o : OpId} (hfresh : p.Fresh o) : x o = none := by
  by_contra hne
  rcases h.given o hne with hcb | hreturned
  · exact hcb hfresh.2.1
  · exact hreturned hfresh.2.2

/-- The caller of a submit call that was not made has dropped no reference. -/
theorem Forgets.released_eq_false (h : p.Forgets x) {o : OpId} (hfresh : p.Fresh o) :
    (p.service.calls o).released = false := by
  refine (Win32.lifecycle_holding (Win32.reachable_life h.service o)).2.released_eq_false ?_
  rw [hfresh.1]
  exact fun heq => by cases heq

/-- A step of the service drops nothing that is noted. -/
theorem Forgets.serviceStep (h : p.Forgets x) {l : Win32.Label n} {t : Win32.State n}
    (hstep : p.service.step l = some t) (hlinked : (p.follow l t).Linked)
    (hleaves : x.leaves (.service l) = true) : (p.follow l t).Forgets x := by
  have hlog : ∀ c, ((p.follow l t).server.operations c).log = (p.server.operations c).log := by
    intro c
    rcases (h.linked.matched.follow h.linked.coherent hstep).2 with hsame | ⟨cb, -, hlose⟩
    · rw [hsame]
    · rw [hlose, HttpServer.log_lose]
  refine ⟨hlinked, h.service.tail trivial hstep, h.given, fun c op hop => ?_, fun c hnil => ?_,
    fun c hne => ?_, fun c op hop hpost => ?_, fun o ho => ?_⟩
  · rw [hlog]
    refine h.posted c op ?_
    rcases (h.linked.matched.follow h.linked.coherent hstep).2 with hsame | ⟨cb, -, hlose⟩
    · rwa [hsame] at hop
    · rw [hlose] at hop
      exact HttpServer.outstanding_lose hop
  · exact h.fresh c (hlog c ▸ hnil)
  · exact h.first c (hlog c ▸ hne)
  · exact h.others c op hop (hlog c ▸ hpost)
  · rcases Win32.State.steps_of_step h.linked.coherent hstep with hsame | ⟨ev, hev, hrelease⟩
    · exact (congrArg Win32.Call.released hsame).trans (h.kept o ho)
    · refine (Win32.Call.released_of_steps hev fun heq => ?_).trans (h.kept o ho)
      rw [hrelease .release heq, Forgotten.leaves, Option.isNone_iff_eq_none] at hleaves
      exact ho hleaves

/-- **A callback keeps the notes right** that does these actions on connection `c`, and whose
submit call `next` gets this note. -/
theorem Forgets.callbackStep {q : Process n} {c : ConnectionId} {next : OpId}
    {note : Option Callback} {actions : List Action} (h : p.Forgets x) (hlinked : q.Linked)
    (hservice : q.service = p.service) (hfresh : p.Fresh next)
    (hgiven : ∀ o, p.callback o ≠ none ∨ p.returned o ≠ none →
      q.callback o ≠ none ∨ q.returned o ≠ none)
    (hnext : note ≠ none → q.callback next ≠ none)
    (hsame : ∀ c', c' ≠ c → q.server.operations c' = p.server.operations c')
    (hlog : (q.server.operations c).log = (p.server.operations c).log ++ actions)
    (hout : (q.server.operations c).outstanding = submitted actions)
    (hnote : ∀ cb, note = some cb → ∃ op, cb = .operation c op ∧ Action.post op ∈ actions)
    (hread : note = some (.operation c .read) → (p.server.operations c).log = [])
    (hfirst : (p.server.operations c).log = [] → actions ≠ [] →
      note = some (.operation c .read))
    (hothers : ∀ op, op ≠ .read → Action.post op ∈ actions → note = some (.operation c op)) :
    q.Forgets (give x next note) := by
  have hnone : x next = none := h.eq_none hfresh
  have hiff : ∀ o cb, give x next note o = some cb ↔ x o = some cb ∨ o = next ∧ note = some cb :=
    fun o cb => give_eq_some_iff hnone
  -- a note of another connection was there before
  have hbefore : ∀ {c'}, c' ≠ c → ∀ o op,
      give x next note o = some (.operation c' op) ↔ x o = some (.operation c' op) := by
    intro c' hne o op
    rw [hiff]
    refine or_iff_left fun ⟨_, hcb⟩ => ?_
    obtain ⟨op', heq, -⟩ := hnote _ hcb
    exact hne (Callback.operation.inj heq).1
  refine ⟨hlinked, hservice ▸ h.service, fun o ho => ?_, fun c' op hop => ?_,
    fun c' hnil o op ho => ?_, fun c' hne => ?_, fun c' op hop hpost => ?_, fun o ho => ?_⟩
  · obtain ⟨cb, hcb⟩ := Option.ne_none_iff_exists'.mp ho
    rcases (hiff o cb).mp hcb with hx | ⟨rfl, hnew⟩
    · exact hgiven o (h.given o (hx ▸ Option.some_ne_none cb))
    · exact .inl (hnext (hnew ▸ Option.some_ne_none cb))
  · by_cases heq : c' = c
    · subst heq
      rw [hout, mem_submitted] at hop
      rw [hlog]
      exact List.mem_append_right _ hop
    · rw [hsame c' heq] at hop ⊢
      exact h.posted c' op hop
  · by_cases heq : c' = c
    · subst heq
      rw [hlog, List.append_eq_nil_iff] at hnil
      rcases (hiff o _).mp ho with hx | ⟨-, hnew⟩
      · exact h.fresh c' hnil.1 o op hx
      · obtain ⟨op', -, hpost⟩ := hnote _ hnew
        rw [hnil.2] at hpost
        cases hpost
    · rw [hsame c' heq] at hnil
      exact h.fresh c' hnil o op ((hbefore heq o op).mp ho)
  · by_cases heq : c' = c
    · subst heq
      by_cases hnil : (p.server.operations c').log = []
      · rw [hlog, hnil, List.nil_append] at hne
        refine ⟨next, (hiff next _).mpr (.inr ⟨rfl, hfirst hnil hne⟩), fun o ho => ?_⟩
        rcases (hiff o _).mp ho with hx | ⟨hnew, -⟩
        · exact absurd hx (h.fresh c' hnil o .read)
        · exact hnew
      · obtain ⟨o, ho, hunique⟩ := h.first c' hnil
        refine ⟨o, (hiff o _).mpr (.inl ho), fun o' ho' => ?_⟩
        rcases (hiff o' _).mp ho' with hx | ⟨-, hnew⟩
        · exact hunique o' hx
        · exact absurd (hread hnew) hnil
    · rw [hsame c' heq] at hne
      obtain ⟨o, ho, hunique⟩ := h.first c' hne
      exact ⟨o, (hbefore heq o .read).mpr ho,
        fun o' ho' => hunique o' ((hbefore heq o' .read).mp ho')⟩
  · by_cases heq : c' = c
    · subst heq
      rw [hlog, List.mem_append] at hpost
      rcases hpost with hpost | hpost
      · obtain ⟨o, ho⟩ := h.others c' op hop hpost
        exact ⟨o, (hiff o _).mpr (.inl ho)⟩
      · exact ⟨next, (hiff next _).mpr (.inr ⟨rfl, hothers op hop hpost⟩)⟩
    · rw [hsame c' heq] at hpost
      obtain ⟨o, ho⟩ := h.others c' op hop hpost
      exact ⟨o, (hbefore heq o op).mpr ho⟩
  · obtain ⟨cb, hcb⟩ := Option.ne_none_iff_exists'.mp ho
    rw [hservice]
    rcases (hiff o cb).mp hcb with hx | ⟨rfl, -⟩
    · exact h.kept o (hx ▸ Option.some_ne_none cb)
    · exact h.released_eq_false hfresh

/-- A callback that was given or has run is so when another has run. -/
theorem given_of_run {callback callback' : OpId → Option Callback}
    {returned : OpId → Option ExceptionPointer} {o o' : OpId} {e : ExceptionPointer}
    (hkept : o' ≠ o → callback o' ≠ none → callback' o' ≠ none)
    (h : callback o' ≠ none ∨ returned o' ≠ none) :
    callback' o' ≠ none ∨ Function.update returned o (some e) o' ≠ none := by
  by_cases heq : o' = o
  · subst heq
    rw [Function.update_self]
    exact .inr (Option.some_ne_none e)
  · rw [Function.update_of_ne heq]
    exact h.imp_left (hkept heq)

/-- `onAccepted` keeps the notes right: it posts the first read, in a pointer, or nothing. -/
theorem Forgets.accepted {o : OpId} {c : ConnectionId} {ch : AcceptChoices} {read next : OpId}
    (h : p.Forgets x) (hlinked : (p.accepted o c ch read next).Linked)
    (hcb : p.callback o = some .accept) (hnew : (p.server.ledger c).accepted = false)
    (hread : p.Fresh read) (hne : read ≠ next) :
    (p.accepted o c ch read next).Forgets
      (give x read ((p.accepted o c ch read next).callback read)) := by
  obtain ⟨hout, hlog⟩ := posts_onAccepted h.linked.recorded hnew ch
  obtain ⟨-, -, hnil⟩ :=
    (h.linked.recorded.sequential c).fresh (h.linked.recorded.not_accepted hnew)
  have hro : read ≠ o := by
    rintro rfl
    cases hread.2.1.symm.trans hcb
  have hnote : (p.accepted o c ch read next).callback read =
      (submitted ((p.server.onAccepted c ch).2.operations c).log).head?.map (.operation c) := by
    rw [← hout]
    exact (give_of_ne hne).trans (give_self ((Function.update_of_ne hro _ _).trans hread.2.1))
  refine h.callbackStep hlinked rfl hread (fun o' => given_of_run fun ho' hgiven => ?_) id
    (fun c' hc' => (onAccepted_of_ne hc').2.1) (by rw [hnil]; rfl) hout (fun cb hcb' => ?_)
    (fun _ => hnil) (fun _ hne' => ?_) fun op hop hpost => ?_
  · refine give_ne_none (give_ne_none ?_)
    rw [Function.update_of_ne ho']
    exact hgiven
  · rw [hnote] at hcb'
    obtain ⟨op, hop, rfl⟩ := Option.map_eq_some_iff.mp hcb'
    exact ⟨op, rfl, mem_submitted.mp (List.mem_of_head? hop)⟩
  · rw [hnote, hlog.resolve_left hne']
    rfl
  · rcases hlog with hlog | hlog
    · rw [hlog] at hpost
      cases hpost
    · rw [hlog, List.mem_singleton] at hpost
      exact absurd (Action.post.inj hpost) hop

/-- `onStatusChanged` keeps the notes right: what it posts in a pointer is noted. -/
theorem Forgets.statusChanged {o : OpId} {c : ConnectionId} {op : Op} {ch : Choices} {sv : Bytes}
    {next : OpId} (h : p.Forgets x) (hrunning : p.server.terminated = false)
    (hlinked : (p.statusChanged env o c op ch sv next).Linked)
    (hcb : p.expected o = some (.operation c op)) (hnext : p.Fresh next) :
    (p.statusChanged env o c op ch sv next).Forgets
      (give x next (((p.statusChanged env o c op ch sv next).callback next).filter
        (·.inPointer))) := by
  obtain ⟨actions, hone, hlog, hout⟩ :=
    @Linked.posts_statusChanged n env p h.linked hrunning o c op hcb ch sv next
  have hno : next ≠ o := by
    rintro rfl
    cases hnext.2.1.symm.trans (of_expected hcb).2
  have hposted : (p.statusChanged env o c op ch sv next).callback next =
      (submitted actions).head?.map (.operation c) := by
    rw [← hout]
    refine (give_self ((Function.update_of_ne hno _ _).trans hnext.2.1)).trans ?_
    simp [Operations.posted, Process.statusChanged]
  have hpost : Action.post op ∈ (p.server.operations c).log :=
    h.posted c op (h.linked.awaited o _ hcb)
  refine h.callbackStep hlinked rfl hnext (fun o' => given_of_run fun ho' hgiven => ?_)
    (fun hnote hnone => ?_) (fun c' hc' => ?_) hlog hout (fun cb hcb' => ?_) (fun hnote => ?_)
    (fun hnil => ?_) fun op' hop' hpost' => ?_
  · refine give_ne_none ?_
    rw [Function.update_of_ne ho']
    exact hgiven
  · rw [hnone] at hnote
    exact hnote rfl
  · simp [Process.statusChanged, hc']
  · rw [hposted, Option.filter_eq_some_iff] at hcb'
    obtain ⟨op', hop', rfl⟩ := Option.map_eq_some_iff.mp hcb'.1
    exact ⟨op', rfl, mem_submitted.mp (List.mem_of_head? hop')⟩
  · -- another read is not noted
    exact absurd (Option.filter_eq_some_iff.mp hnote).2 Bool.false_ne_true
  · rw [hnil] at hpost
    cases hpost
  · have hmem : op' ∈ submitted actions := mem_submitted.mpr hpost'
    obtain ⟨op'', hsingle⟩ := List.length_eq_one_iff.mp
      (Nat.le_antisymm hone (List.length_pos_of_mem hmem))
    rw [hsingle, List.mem_singleton] at hmem
    subst hmem
    rw [hposted, hsingle, Option.filter_eq_some_iff]
    refine ⟨rfl, ?_⟩
    cases op' with
    | read => exact absurd rfl hop'
    | body size | write state => rfl

/-- **Every step of the process** keeps the notes right. -/
theorem Forgets.step {q : Process n} {l : ProcessLabel n} (h : p.Forgets x)
    (hleaves : x.leaves l = true) (hstep : p.step env l = some q) :
    q.Forgets (noteForgotten x p l q) := by
  obtain ⟨hlinked, -, -⟩ := h.linked.step hstep
  cases moves_of_step hstep with
  | service hgo hadmits => exact h.serviceStep hgo hlinked hleaves
  | onAccepted hw hcb hnew hread hnext hne => exact h.accepted hlinked hcb hnew hread hne
  | onStatusChanged hw hcb hnext hsize =>
      exact h.statusChanged (server_running_of_step hstep) hlinked
        (h.linked.expected_of_atCallback hw hcb) hnext

/-- What is noted stays noted, and its call, once it has returned success, where it is. -/
theorem Forgets.stays {q : Process n} {l : ProcessLabel n} {o : OpId} (h : p.Forgets x)
    (hstep : p.step env l = some q) (ho : x o ≠ none)
    (hpc : (p.service.calls o).pc = .returned none) :
    noteForgotten x p l q o ≠ none ∧ (q.service.calls o).pc = .returned none ∧
      (q.service.calls o).failPoint = (p.service.calls o).failPoint ∧
      (q.service.calls o).fault = (p.service.calls o).fault := by
  cases moves_of_step hstep with
  | @service l t hgo hadmits =>
      refine ⟨ho, ?_⟩
      change (t.calls o).pc = _ ∧ (t.calls o).failPoint = _ ∧ (t.calls o).fault = _
      rcases Win32.State.steps_of_step h.linked.coherent hgo with hsame | ⟨ev, hev, -⟩
      · rw [hsame]
        exact ⟨hpc, rfl, rfl⟩
      · exact Win32.Call.returned_of_steps hev hpc
  | onAccepted hw hcb hnew hread hnext hne => exact ⟨give_ne_none ho, hpc, rfl, rfl⟩
  | onStatusChanged hw hcb hnext hsize => exact ⟨give_ne_none ho, hpc, rfl, rfl⟩

end

/-- **Nothing is noted at the start.** -/
theorem forgets_init (n : ℕ) (env : Env) : (process n env).init.Forgets fun _ => none where
  linked := linked_init n env
  service := .refl
  given := fun _ h => absurd rfl h
  posted := fun _ _ h => absurd h List.not_mem_nil
  fresh := fun _ _ _ _ h => by cases h
  first := fun _ h => absurd rfl h
  others := fun _ _ _ h => absurd h List.not_mem_nil
  kept := fun _ h => absurd rfl h

/-- **What is left for ever.** -/
structure Leaks (env : Env) (p : Process n) (x : Forgotten) : Prop where
  /-- Of every connection of which anything was posted, the task of the first read is noted, ... -/
  first : ∀ c, (p.server.operations c).log ≠ [] → ∃! o, x o = some (.operation c .read)
  /-- ... and with it that of the read of its body, and of the write of its response. -/
  others : ∀ c op, op ≠ .read → Action.post op ∈ (p.server.operations c).log →
    ∃ o, x o = some (.operation c op)
  /-- Once its submit call has returned, if it did not fail and did not touch a task that was
  destroyed, such a task lives in every run to come, with its block and its callback. -/
  left : ∀ o, x o ≠ none → (p.service.calls o).pc = .returned none →
    (p.service.calls o).failPoint = none → (p.service.calls o).fault = false →
    ∀ q y, (forgetting n env).RunWhere (fun m l => m.2.leaves l = true) (p, x) (q, y) →
      (q.service.calls o).task.destroyed = 0 ∧ (q.service.calls o).callerRef = true ∧
        (q.service.calls o).task.overlappedReleased = 0 ∧
        (q.service.calls o).task.callbackRefs = 1

end Process

/-- **The server leaks**, in every run in which nobody drops what came back in a plain pointer,
whatever the kernel does and however the workers interleave, the tasks of the first read, of the
body and of the response of every connection, and their callbacks. -/
theorem server_leaks {n : ℕ} {env : Env} {p : Process n} {x : Forgotten}
    (h : (forgetting n env).RunWhere (fun m l => m.2.leaves l = true) (forgetting n env).init
      (p, x)) : p.Leaks env x := by
  have hall : p.Forgets x := by
    refine h.invariant (I := fun m => m.1.Forgets m.2) (Process.forgets_init n env) ?_
    intro m l m' hm hleaves hstep
    obtain ⟨hgo, hnote⟩ := Machine.step_withHistory hstep
    rw [hnote]
    exact hm.step hleaves hgo
  refine ⟨hall.first, hall.others, fun o ho hpc hfail hfault q y hrun => ?_⟩
  have hleft : q.Forgets y ∧ y o ≠ none ∧ (q.service.calls o).pc = .returned none ∧
      (q.service.calls o).failPoint = none ∧ (q.service.calls o).fault = false := by
    refine hrun.invariant (I := fun m => m.1.Forgets m.2 ∧ m.2 o ≠ none ∧
      (m.1.service.calls o).pc = .returned none ∧ (m.1.service.calls o).failPoint = none ∧
      (m.1.service.calls o).fault = false) ⟨hall, ho, hpc, hfail, hfault⟩ ?_
    rintro m l m' ⟨hm, ho, hpc, hfail, hfault⟩ hleaves hstep
    obtain ⟨hgo, hnote⟩ := Machine.step_withHistory hstep
    obtain ⟨ho', hpc', hfail', hfault'⟩ := hm.stays hgo ho hpc
    rw [hnote]
    exact ⟨hm.step hleaves hgo, ho', hpc', hfail'.trans hfail, hfault'.trans hfault⟩
  obtain ⟨hq, hy, hpc', hfail', hfault'⟩ := hleft
  obtain ⟨haccounted, hholding⟩ :=
    Win32.lifecycle_holding (Win32.reachable_life hq.service o)
  have hcaller : (q.service.calls o).callerRef = true :=
    hholding.caller (by rw [hpc']; rfl) hfail' (hq.kept o hy)
  have halive := hholding.alive hcaller hfault'
  have hledger := haccounted.ledger halive
  refine ⟨halive, hcaller, hledger.overlappedReleased, ?_⟩
  rw [hledger.callbackRefs, haccounted.built.callback, haccounted.built.handed hpc', if_pos rfl]

/-! ### A concrete run -/

/-- The first read of a connection that comes in is submitted, and its task is leaked. -/
theorem server_leaks_accepted :
    ∃ (p : Process 1) (x : Forgotten), (x 1 = some (.operation 0 .read) ∧
      (p.service.calls 1).pc = .returned none ∧ (p.service.calls 1).fault = false) ∧
      p.Leaks .bare x := by
  obtain ⟨⟨p, x⟩, hrun, hp⟩ := Machine.exists_runWhere (M := forgetting 1 .bare)
    (G := fun m l => m.2.leaves l = true) (s := (forgetting 1 .bare).init)
    (P := fun m => m.2 1 = some (.operation 0 .read) ∧
      (m.1.service.calls 1).pc = .returned none ∧ (m.1.service.calls 1).fault = false)
    (startsListening ++ ((.complete 0 0 :: Win32.reachesCallback).map .service ++
      [.onAccepted 0 0 {} 1 2] ++
      [.submit 1 (.call .read false), .submit 1 (.alloc true), .submit 1 (.alloc true),
        .submit 1 (.issue .success), .submit 1 (.alloc true), .submit 1 (.alloc true),
        .submit 1 .go, .submit 1 .go, .submit 1 .go].map .service)) (by decide)
  exact ⟨p, x, hp, server_leaks hrun⟩

end Netknot.Http
