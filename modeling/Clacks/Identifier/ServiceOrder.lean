import Clacks.Identifier.Interleavings

/-!
# The order of service

However the clients and the service interleave, there is one order, the order in which
connections are accepted, in which the calls could have been made one after another: the
service is in the state they leave, and every client sees on its connection what it would
see alone.  The order is the log of {lit}`accept` steps.  It only grows at its end, so a client
that was served before another one connected comes before it.

Main results:

- Theorem {lit}`Net.Accepts.inOrder`: what the log of a run says of its states.
- Theorem {lit}`served_in_order`: the logs of the states of an interleaving explain them.
-/

namespace Clacks
namespace Identifier

open Foundation Program LockStep Client

/-! ## One call against one state -/

/-- The messages of a call when the service that takes it is in state {lit}`s`. -/
def Call.dialogue (lib : Libuuid) (s : Service) : Call → List Turn
  | newId _ =>
      [{ sender := .client, allowed := fun bytes => bytes = clIdGet, limit := 1024 },
        { sender := .server, allowed := fun bytes => bytes = (nextUuid lib s.pool).1.bytes,
          limit := 1024 }]
  | tagId clId derrived => (Call.tagId clId derrived).script

/-- What happens on the connection of a call that meets the service in state {lit}`s`. -/
def Call.transcript (lib : Libuuid) (s : Service) : Call → List Happening
  | newId _ =>
      let id := (nextUuid lib s.pool).1.bytes
      [.wrote .client clIdGet, .got .server clIdGet, .wrote .server id, .got .client id]
  | tagId clId derrived =>
      [.wrote .client clIdTag, .got .server clIdTag,
        .wrote .server continueCommand, .got .client continueCommand,
        .wrote .client clId.bytes, .got .server clId.bytes,
        .wrote .server continueCommand, .got .client continueCommand,
        .wrote .client derrived.bytes, .got .server (derrived.bytes.take 128)]

section Dialogue

variable (lib : Libuuid) (s : Service) (call : Call)

theorem Call.dialogue_framed : Framed (call.dialogue lib s) := by
  cases call with
  | newId buf =>
      refine ⟨rfl, ?_, trivial⟩
      rintro bytes rfl
      decide
  | tagId clId derrived => exact (Call.tagId clId derrived).framed

theorem follows_dialogue_client (fd : Nat) (fin : Option Service → Prop) (hfin : fin none) :
    Follows .client fin (call.dialogue lib s) (connected fd call.program) := by
  cases call with
  | newId buf =>
      rw [Call.connected_program]
      refine .send rfl rfl (.receive rfl fun bytes _ => ?_)
      exact .close rfl hfin
  | tagId clId derrived => exact follows_program (.tagId clId derrived) fd fin hfin

theorem follows_dialogue_server (frame : Frame) (sockMsg : Nat) :
    Follows .server (call.fin lib frame s .server) (call.dialogue lib s)
      (serverProgram lib frame sockMsg s) := by
  cases call with
  | newId buf =>
      unfold serverProgram
      rw [serveConnection_eq]
      refine .receive rfl ?_
      rintro bytes rfl
      have hget : command (frame.buf.store (Chunk.front 1024 clIdGet)).bytes = .get := by
        rw [command_eq_get_iff]
        exact cstr_store_terminated _ (by decide) (by decide)
      simp only [afterCommand, hget]
      refine .send rfl rfl ?_
      exact .close rfl rfl
  | tagId clId derrived => exact follows_serveConnection lib frame sockMsg s (.tagId clId derrived)

theorem sync_dialogue (frame : Frame) (fd sockMsg : Nat) :
    Sync (call.fin lib frame s) (call.dialogue lib s)
      (Link.fresh (connected fd call.program) (serverProgram lib frame sockMsg s)) :=
  Sync.init (follows_dialogue_client lib s call fd _ rfl)
    (follows_dialogue_server lib s call frame sockMsg)

/-- A full run of the dialogue is the transcript. -/
theorem exchanges_dialogue {full : List (Turn × List UInt8)}
    (hscript : full.map Prod.fst = call.dialogue lib s) (hall : ∀ x ∈ full, x.1.allowed x.2) :
    exchanges full = call.transcript lib s := by
  cases call with
  | newId buf =>
      simp only [Call.dialogue, List.map_eq_cons_iff, List.map_eq_nil_iff] at hscript
      rcases hscript with ⟨⟨_, get⟩, _, rfl, rfl, ⟨_, id⟩, _, rfl, rfl, rfl⟩
      simp only [List.mem_cons, List.not_mem_nil, or_false, forall_eq_or_imp, forall_eq] at hall
      rcases hall with ⟨rfl, rfl⟩
      have hget : clIdGet.take 1024 = clIdGet := by decide
      have htake : (nextUuid lib s.pool).1.bytes.take 1024 = (nextUuid lib s.pool).1.bytes :=
        List.take_of_length_le (by rw [Buffer.length_eq]; decide)
      simp [Call.transcript, exchanges, hget, htake, Side.other]
  | tagId clId derrived => exact (Call.tagId clId derrived).transcript_of_script hscript hall

/-- A connection that follows the dialogue has seen the beginning of its transcript. -/
theorem history_of_dialogue {fin : Side → Option Service → Prop} {l : Link (Option Service)}
    (h : Sync fin (call.dialogue lib s) l) : l.history <+: call.transcript lib s := by
  have hpossible : ∀ t ∈ call.dialogue lib s, ∃ bytes, t.allowed bytes := by
    cases call with
    | newId buf => simp [Call.dialogue]
    | tagId clId derrived => exact (Call.tagId clId derrived).possible
  rcases h.history_prefix hpossible with ⟨full, hscript, hall, hprefix⟩
  rwa [exchanges_dialogue lib s call hscript hall] at hprefix

/-- One whose ends have returned has seen all of it. -/
theorem history_of_dialogue_done {fin : Side → Option Service → Prop} {l : Link (Option Service)}
    (h : Sync fin (call.dialogue lib s) l) (hdone : ∀ side, ∃ g, l.prog side = .done g) :
    l.history = call.transcript lib s := by
  rcases h.history_of_done hdone with ⟨full, hscript, hall, hhistory⟩
  rw [hhistory, exchanges_dialogue lib s call hscript hall]

end Dialogue

/-! ## The order -/

variable {ι : Type}

/-- The service after the calls of {lit}`order`, one after another.  The memory that a
connection meets is given with it. -/
def replay (lib : Libuuid) (calls : ι → Call) (start : Service) (order : List (ι × Frame)) :
    Service :=
  order.foldl (fun s x => (calls x.1).outcome lib x.2 s) start

theorem replay_concat (lib : Libuuid) (calls : ι → Call) (start : Service)
    (order : List (ι × Frame)) (x : ι × Frame) :
    replay lib calls start (order ++ [x]) =
      (calls x.1).outcome lib x.2 (replay lib calls start order) := by
  simp [replay]

/-- The service has taken the connections of the client. -/
def Phase.Taken (phase : Phase) : Prop :=
  phase = .accepted ∨ phase = .served

/-- The connections were accepted in {lit}`order`.  One that still waits is ready for any
state of the service and has received nothing; one that was accepted follows the dialogue
with the state left by those before it. -/
structure Net.InOrder (lib : Libuuid) (calls : ι → Call) (start : Service) (n : Net ι)
    (order : List (ι × Frame)) : Prop where
  inv : n.Invariant lib calls
  nodup : (order.map Prod.fst).Nodup
  taken : ∀ i, i ∈ order.map Prod.fst ↔ (n.phase i).Taken
  waiting : ∀ i, n.phase i = .pending → ∀ frame sockMsg s,
    Sync ((calls i).fin lib frame s) ((calls i).dialogue lib s)
      ((n.link i).attach (serverProgram lib frame sockMsg s))
  quiet : ∀ i, ¬(n.phase i).Taken → (n.link i).inbox .client = [] ∧
    (n.link i).shut .server = false ∧ ∀ bytes, .got .client bytes ∉ (n.link i).history
  talking : ∀ before i frame after, order = before ++ (i, frame) :: after →
    Sync ((calls i).fin lib frame (replay lib calls start before))
      ((calls i).dialogue lib (replay lib calls start before)) (n.link i)
  idle : (∀ i, n.phase i ≠ .accepted) → n.service = replay lib calls start order
  busy : ∀ i, n.phase i = .accepted → ∃ front frame, order = front ++ [(i, frame)] ∧
    n.service = replay lib calls start front

section Order

variable {lib : Libuuid} {calls : ι → Call} {start : Service} {n n' : Net ι}
  {order : List (ι × Frame)}

theorem inOrder_initial [DecidableEq ι] (lib : Libuuid) (calls : ι → Call) (start : Service) :
    (Net.initial calls start).InOrder lib calls start [] where
  inv := Reachable.invariant .refl
  nodup := List.nodup_nil
  taken i := by simp [Net.initial, Phase.Taken]
  waiting i hphase := by simp [Net.initial] at hphase
  quiet i _ := by simp [Net.initial, Link.fresh]
  talking before i frame after h := by simp at h
  idle _ := rfl
  busy i hphase := by simp [Net.initial] at hphase

/-- A client whose connection was not taken yet cannot receive anything. -/
theorem quiet_step {l l' : Link (Option Service)} (hstep : l.Step .client l')
    (h : l.inbox .client = [] ∧ l.shut .server = false ∧ ∀ bytes, .got .client bytes ∉ l.history) :
    l'.inbox .client = [] ∧ l'.shut .server = false ∧
      ∀ bytes, .got .client bytes ∉ l'.history := by
  rcases h with ⟨hinbox, hshut, hnot⟩
  cases hstep with
  | write hprog hopen =>
      refine ⟨by simpa [Side.other] using hinbox, hshut, ?_⟩
      intro bytes hmem
      exact hnot bytes (by simpa using hmem)
  | read hprog hready =>
      simp [hinbox, Side.other, hshut] at hready
  | close hprog => exact ⟨hinbox, by simpa using hshut, hnot⟩

/-- The connections of the other clients are as they were. -/
theorem Net.InOrder.set_quiet [DecidableEq ι] (h : n.InOrder lib calls start order) {i : ι}
    {phase : Phase} {l : Link (Option Service)} (hquiet : ¬phase.Taken → l.inbox .client = [] ∧
      l.shut .server = false ∧ ∀ bytes, .got .client bytes ∉ l.history) (j : ι)
    (hj : ¬((n.set i phase l).phase j).Taken) : ((n.set i phase l).link j).inbox .client = [] ∧
      ((n.set i phase l).link j).shut .server = false ∧
        ∀ bytes, .got .client bytes ∉ ((n.set i phase l).link j).history := by
  by_cases hji : j = i
  · subst hji
    simp only [Net.set, Function.update_self] at hj ⊢
    exact hquiet hj
  · simp only [Net.set, Function.update_of_ne hji] at hj ⊢
    exact h.quiet j hj

theorem Net.InOrder.set_waiting [DecidableEq ι] (h : n.InOrder lib calls start order) {i : ι}
    {phase : Phase} {l : Link (Option Service)} (hwaiting : phase = .pending → ∀ frame sockMsg s,
      Sync ((calls i).fin lib frame s) ((calls i).dialogue lib s)
        (l.attach (serverProgram lib frame sockMsg s))) (j : ι)
    (hj : (n.set i phase l).phase j = .pending) (frame : Frame) (sockMsg : Nat) (s : Service) :
    Sync ((calls j).fin lib frame s) ((calls j).dialogue lib s)
      (((n.set i phase l).link j).attach (serverProgram lib frame sockMsg s)) := by
  by_cases hji : j = i
  · subst hji
    simp only [Net.set, Function.update_self] at hj ⊢
    exact hwaiting hj frame sockMsg s
  · simp only [Net.set, Function.update_of_ne hji] at hj ⊢
    exact h.waiting j hj frame sockMsg s

/-- The members of the order keep their dialogues when a connection is not among them, or
moves on in its own. -/
theorem Net.InOrder.set_talking [DecidableEq ι] (h : n.InOrder lib calls start order) {i : ι}
    (phase : Phase) {l : Link (Option Service)} (hstep : (n.phase i).Taken →
      ∀ (fin : Side → Option Service → Prop) (s : Service),
        Sync fin ((calls i).dialogue lib s) (n.link i) → Sync fin ((calls i).dialogue lib s) l)
    (before : List (ι × Frame)) (j : ι) (frame : Frame) (after : List (ι × Frame))
    (hsplit : order = before ++ (j, frame) :: after) :
    Sync ((calls j).fin lib frame (replay lib calls start before))
      ((calls j).dialogue lib (replay lib calls start before)) ((n.set i phase l).link j) := by
  have hsync := h.talking before j frame after hsplit
  by_cases hji : j = i
  · subst hji
    have htaken : (n.phase j).Taken := by
      rw [← h.taken j, hsplit]
      simp
    simp only [Net.set, Function.update_self]
    exact hstep htaken _ _ hsync
  · simp only [Net.set, Function.update_of_ne hji]
    exact hsync

theorem Net.InOrder.set_taken [DecidableEq ι] (h : n.InOrder lib calls start order) {i : ι}
    {phase : Phase} (l : Link (Option Service)) (hsame : (n.phase i).Taken ↔ phase.Taken) (j : ι) :
    j ∈ order.map Prod.fst ↔ ((n.set i phase l).phase j).Taken := by
  rw [h.taken j]
  by_cases hji : j = i
  · subst hji
    simpa [Net.set] using hsame
  · simp [Net.set, hji]

/-- A connection that moves without being accepted or left: the order stays. -/
theorem Net.InOrder.keep [DecidableEq ι] (h : n.InOrder lib calls start order) {i : ι}
    {phase : Phase} {l : Link (Option Service)} {backlog : List ι}
    (hinv : ({ n.set i phase l with backlog := backlog } : Net ι).Invariant lib calls)
    (hsame : (n.phase i).Taken ↔ phase.Taken)
    (haccepted : n.phase i = .accepted ↔ phase = .accepted)
    (hwaiting : phase = .pending → ∀ frame sockMsg s,
      Sync ((calls i).fin lib frame s) ((calls i).dialogue lib s)
        (l.attach (serverProgram lib frame sockMsg s)))
    (hquiet : ¬phase.Taken → l.inbox .client = [] ∧ l.shut .server = false ∧
      ∀ bytes, .got .client bytes ∉ l.history)
    (htalking : (n.phase i).Taken → ∀ (fin : Side → Option Service → Prop) (s : Service),
      Sync fin ((calls i).dialogue lib s) (n.link i) → Sync fin ((calls i).dialogue lib s) l) :
    ({ n.set i phase l with backlog := backlog } : Net ι).InOrder lib calls start order := by
  have hphase : ∀ j, (n.set i phase l).phase j = .accepted ↔ n.phase j = .accepted := by
    intro j
    by_cases hji : j = i
    · subst hji
      simpa [Net.set] using haccepted.symm
    · simp [Net.set, hji]
  refine ⟨hinv, h.nodup, h.set_taken l hsame, h.set_waiting hwaiting, h.set_quiet hquiet,
    h.set_talking phase htalking, ?_, ?_⟩
  · intro hidle
    exact h.idle fun j hj => hidle j ((hphase j).2 hj)
  · intro j hj
    exact h.busy j ((hphase j).1 hj)

/-- An accepted connection stands at the end of the order, in its dialogue with the state
that the service is in. -/
theorem Net.InOrder.append_talking (h : n.InOrder lib calls start order) {i : ι} {frame : Frame}
    {sockMsg : Nat} {link : ι → Link (Option Service)} (hphase : n.phase i = .pending)
    (hidle : ∀ j, n.phase j ≠ .accepted)
    (hlink : link i = (n.link i).attach (serverProgram lib frame sockMsg n.service))
    (hothers : ∀ j, j ≠ i → link j = n.link j) (before : List (ι × Frame)) (j : ι)
    (frame' : Frame) (after : List (ι × Frame))
    (hsplit : order ++ [(i, frame)] = before ++ (j, frame') :: after) :
    Sync ((calls j).fin lib frame' (replay lib calls start before))
      ((calls j).dialogue lib (replay lib calls start before)) (link j) := by
  rcases List.eq_nil_or_concat after with rfl | ⟨after', last, rfl⟩
  · rcases List.append_inj' hsplit rfl with ⟨rfl, hlast⟩
    cases hlast
    rw [hlink, h.idle hidle]
    exact h.waiting i hphase frame sockMsg _
  · have hfront : order = before ++ (j, frame') :: after' := by
      rw [List.concat_eq_append, ← List.cons_append, ← List.append_assoc] at hsplit
      exact (List.append_inj' hsplit rfl).1
    have hne : j ≠ i := by
      rintro rfl
      have htaken : (n.phase j).Taken := by
        rw [← h.taken j, hfront]
        simp
      simp [hphase, Phase.Taken] at htaken
    rw [hothers j hne]
    exact h.talking before j frame' after' hfront

/-- Accepting the first of the listen queue appends it to the order. -/
theorem Net.InOrder.accept [DecidableEq ι] (h : n.InOrder lib calls start order) {i : ι}
    {rest : List ι} {frame : Frame} {sockMsg : Nat} (hphase : n.phase i = .pending)
    (hidle : ∀ j, n.phase j ≠ .accepted)
    (hinv : ({ n.set i .accepted ((n.link i).attach (serverProgram lib frame sockMsg n.service))
      with backlog := rest } : Net ι).Invariant lib calls) :
    ({ n.set i .accepted ((n.link i).attach (serverProgram lib frame sockMsg n.service))
      with backlog := rest } : Net ι).InOrder lib calls start (order ++ [(i, frame)]) := by
  have hnew : i ∉ order.map Prod.fst := by
    rw [h.taken i, hphase]
    simp [Phase.Taken]
  refine ⟨hinv, ?_, ?_, ?_, ?_, ?_, ?_, ?_⟩
  · rw [List.map_append, List.map_singleton]
    refine List.nodup_append.2 ⟨h.nodup, List.nodup_singleton i, ?_⟩
    rintro j hj k hk rfl
    rw [List.mem_singleton.1 hk] at hj
    exact hnew hj
  · intro j
    rw [List.map_append, List.mem_append, h.taken j]
    by_cases hji : j = i
    · subst hji
      simp [Net.set, Phase.Taken]
    · simp [Net.set, hji]
  · exact h.set_waiting (by simp)
  · exact h.set_quiet (by simp [Phase.Taken])
  · exact h.append_talking hphase hidle (Function.update_self i _ n.link) fun j hji =>
      Function.update_of_ne hji _ n.link
  · intro hnone
    exact absurd (by simp [Net.set]) (hnone i)
  · intro j hj
    by_cases hji : j = i
    · subst hji
      exact ⟨order, frame, rfl, h.idle hidle⟩
    · simp only [Net.set, Function.update_of_ne hji] at hj
      exact absurd hj (hidle j)

/-- Leaving a connection whose program is done takes over the state of its call. -/
theorem Net.InOrder.leave [DecidableEq ι] (h : n.InOrder lib calls start order) {i : ι}
    {s : Service} (hphase : n.phase i = .accepted)
    (hdone : (n.link i).prog .server = .done (some s))
    (hinv : ({ n.set i .served (n.link i) with service := s } : Net ι).Invariant lib calls) :
    ({ n.set i .served (n.link i) with service := s } : Net ι).InOrder lib calls start order := by
  rcases h.busy i hphase with ⟨front, frame, horder, _⟩
  have hsync := h.talking front i frame [] horder
  have hfin : some s = some ((calls i).outcome lib frame (replay lib calls start front)) :=
    hsync.fin_of_done hdone
  cases hfin
  have honly : ∀ j, n.phase j = .accepted → j = i := by
    intro j hj
    rcases h.busy j hj with ⟨front', frame', horder', _⟩
    have hlast := (List.append_inj' (horder.symm.trans horder') rfl).2
    cases hlast
    rfl
  refine ⟨hinv, h.nodup, h.set_taken (n.link i) ?_, h.set_waiting (by simp),
    h.set_quiet (by simp [Phase.Taken]), h.set_talking .served fun _ _ _ hsync => hsync, ?_, ?_⟩
  · simp [hphase, Phase.Taken]
  · intro _
    rw [horder, replay_concat]
  · intro j hj
    by_cases hji : j = i
    · subst hji
      simp [Net.set] at hj
    · simp only [Net.set, Function.update_of_ne hji] at hj
      exact absurd (honly j hj) hji

/-- Every step that accepts nobody keeps the order. -/
theorem Net.InOrder.step [DecidableEq ι] (h : n.InOrder lib calls start order)
    (hstep : n.Step lib n') (hsame : ∀ j, n'.phase j = .accepted → n.phase j = .accepted) :
    n'.InOrder lib calls start order := by
  have hinv' := h.inv.step hstep
  cases hstep with
  | socket i fd hphase hprog =>
      refine h.keep hinv' ?_ ?_ ?_ ?_ ?_
      · simp [hphase, Phase.Taken]
      · simp [hphase]
      · simp
      · simp [Link.fresh]
      · simp [hphase, Phase.Taken]
  | @connect i fd path k hphase hprog hroom =>
      refine h.keep hinv' ?_ ?_ ?_ ?_ ?_
      · simp [hphase, Phase.Taken]
      · simp [hphase]
      · intro _ frame sockMsg s
        have hstage := h.inv.stage i
        simp only [hphase, Stage] at hstage
        rcases hstage with ⟨fd', k', hlink, hk⟩
        simp only [hlink, Link.fresh] at hprog
        cases hprog
        rw [hk, Link.fresh_attach]
        exact sync_dialogue lib s (calls i) frame _ sockMsg
      · simp [Link.fresh]
      · simp [hphase, Phase.Taken]
  | client i hphase hstep =>
      refine h.keep hinv' Iff.rfl Iff.rfl ?_ ?_ ?_
      · intro hpending frame sockMsg s
        exact (h.waiting i hpending frame sockMsg s).step (Call.dialogue_framed lib s (calls i))
          (hstep.attach _)
      · intro hnot
        exact quiet_step hstep (h.quiet i hnot)
      · intro _ fin s hsync
        exact hsync.step (Call.dialogue_framed lib s (calls i)) hstep
  | accept i frame sockMsg hbacklog hidle => exact absurd (hsame i (by simp [Net.set])) (hidle i)
  | server i hphase hstep =>
      refine h.keep hinv' ?_ ?_ ?_ ?_ ?_
      · rw [hphase]
      · simp [hphase]
      · simp
      · simp [Phase.Taken]
      · intro _ fin s hsync
        exact hsync.step (Call.dialogue_framed lib s (calls i)) hstep
  | next i hphase hdone => exact h.leave hphase hdone hinv'

/-- The log of a run continues the order that its first state was reached in. -/
theorem Net.Accepts.inOrder [DecidableEq ι] {log : List (ι × Frame)} (hlog : n.Accepts lib log n')
    (h : n.InOrder lib calls start order) : n'.InOrder lib calls start (order ++ log) := by
  induction hlog with
  | refl =>
      rw [List.append_nil]
      exact h
  | @accept log x n' n'' _ haccept ih =>
      have hinv := ih.inv.step haccept.step
      rcases haccept with ⟨⟨rest, hbacklog⟩, hidle, sockMsg, rfl⟩
      have hphase : n'.phase x.1 = .pending := by
        rw [← ih.inv.waiting x.1, hbacklog]
        exact List.mem_cons_self
      rw [← List.append_assoc]
      exact ih.accept hphase hidle hinv
  | other _ hstep hsame ih => exact ih.step hstep hsame

theorem Net.AcceptedIn.inOrder [DecidableEq ι] (h : n.AcceptedIn lib calls start order) :
    n.InOrder lib calls start order :=
  Net.Accepts.inOrder h (inOrder_initial lib calls start)

/-- Only the last of the order can be on its way. -/
theorem Net.InOrder.served_of_later (h : n.InOrder lib calls start order)
    {before after : List (ι × Frame)} {x y : ι × Frame} (hsplit : order = before ++ x :: after)
    (hy : y ∈ after) : n.phase x.1 = .served := by
  have htaken : (n.phase x.1).Taken := by
    rw [← h.taken, hsplit]
    simp
  refine htaken.resolve_left ?_
  intro haccepted
  rcases h.busy x.1 haccepted with ⟨front, frame, horder, _⟩
  have hnodup := h.nodup
  rcases List.eq_nil_or_concat after with rfl | ⟨after', z, rfl⟩
  · exact absurd hy List.not_mem_nil
  · rw [hsplit, List.concat_eq_append, ← List.cons_append, ← List.append_assoc] at horder hnodup
    rcases List.append_inj' horder rfl with ⟨_, hlast⟩
    cases hlast
    rw [List.map_append, List.nodup_append] at hnodup
    exact hnodup.2.2 x.1 (by simp) x.1 (by simp) rfl

/-- The service is in the state left by those that were served. -/
theorem Net.InOrder.service_eq (h : n.InOrder lib calls start order) :
    n.service = replay lib calls start (order.filter fun x => n.phase x.1 = .served) := by
  by_cases hidle : ∀ i, n.phase i ≠ .accepted
  · have hall : (order.filter fun x => n.phase x.1 = .served) = order := by
      rw [List.filter_eq_self]
      intro x hx
      have htaken := (h.taken x.1).1 (List.mem_map_of_mem hx)
      simpa using htaken.resolve_left (hidle x.1)
    rw [hall]
    exact h.idle hidle
  · simp only [not_forall, not_not] at hidle
    rcases hidle with ⟨i, hphase⟩
    rcases h.busy i hphase with ⟨front, frame, rfl, hservice⟩
    have hfront : (front.filter fun x => n.phase x.1 = .served) = front := by
      rw [List.filter_eq_self]
      intro x hx
      rcases List.append_of_mem hx with ⟨before, after, hsplit⟩
      have horder : front ++ [(i, frame)] = before ++ x :: (after ++ [(i, frame)]) := by
        rw [hsplit, List.append_assoc, List.cons_append]
      simpa using h.served_of_later horder (List.mem_append_right after List.mem_cons_self)
    have hself : ([(i, frame)].filter fun x => n.phase x.1 = .served) = [] := by
      simp [hphase]
    rw [List.filter_append, hfront, hself, List.append_nil]
    exact hservice

/-- What it means that the calls could have been made in {lit}`order`, one after
another. -/
structure Net.Explains (lib : Libuuid) (calls : ι → Call) (start : Service) (n : Net ι)
    (order : List (ι × Frame)) : Prop where
  nodup : (order.map Prod.fst).Nodup
  taken : ∀ i, i ∈ order.map Prod.fst ↔ n.phase i = .accepted ∨ n.phase i = .served
  service : n.service = replay lib calls start (order.filter fun x => n.phase x.1 = .served)
  history : ∀ before i frame after, order = before ++ (i, frame) :: after →
    (n.link i).history <+: (calls i).transcript lib (replay lib calls start before)

theorem Net.InOrder.explains (h : n.InOrder lib calls start order) :
    n.Explains lib calls start order where
  nodup := h.nodup
  taken := h.taken
  service := h.service_eq
  history before i frame after hsplit :=
    history_of_dialogue lib _ (calls i) (h.talking before i frame after hsplit)

/-- In every interleaving of any number of clients with the service, the calls that were
taken could have been made one after another in the order in which they were accepted:
the service is in the state that the served ones leave, and each client sees on its
connection what it sees alone.  Going on appends to the order, so that whoever was taken
before another client connected comes first. -/
theorem served_in_order [DecidableEq ι] (h : Reachable lib calls start n)
    (hsteps : Relation.ReflTransGen (Net.Step lib) n n') :
    (∃ order later, n.AcceptedIn lib calls start order ∧ n.Accepts lib later n') ∧
      ∀ order later, n.AcceptedIn lib calls start order → n.Accepts lib later n' →
        n.Explains lib calls start order ∧ n'.Explains lib calls start (order ++ later) := by
  constructor
  · rcases reachable_iff_acceptedIn.1 h with ⟨order, horder⟩
    rcases Net.exists_accepts hsteps with ⟨later, hlater⟩
    exact ⟨order, later, horder, hlater⟩
  · intro order later horder hlater
    exact ⟨horder.inOrder.explains, (hlater.inOrder horder.inOrder).explains⟩

end Order

/-- Two clients: the one that has connected is accepted, and then both are served. -/
theorem served_in_order_accept : ∃ (n n' : Net Bool) (later : List (Bool × Frame)),
    n.AcceptedIn timeLibuuid twoCalls ⟨timePool 0, []⟩ [(true, Frame.zero)] ∧
    n.Accepts timeLibuuid later n' ∧ (∀ i, n'.phase i = .served) ∧
    n.Explains timeLibuuid twoCalls ⟨timePool 0, []⟩ [(true, Frame.zero)] ∧
    n'.Explains timeLibuuid twoCalls ⟨timePool 0, []⟩ ([(true, Frame.zero)] ++ later) := by
  have hsocket : Net.AcceptedIn timeLibuuid twoCalls ⟨timePool 0, []⟩ _ [] :=
    .other .refl (.socket true 3 rfl rfl) (by decide)
  have hconnect : Net.AcceptedIn timeLibuuid twoCalls ⟨timePool 0, []⟩ _ [] :=
    .other hsocket (.connect true rfl rfl (Nat.zero_le 5)) (by decide)
  have haccept : Net.AcceptedIn timeLibuuid twoCalls ⟨timePool 0, []⟩ _ [(true, Frame.zero)] :=
    .accept hconnect ⟨⟨[], rfl⟩, by decide, 4, rfl⟩
  rcases exists_stuck haccept.reachable.invariant Frame.zero with ⟨n', later, hlater, hstuck, _⟩
  have hserved := (hlater.inOrder haccept.inOrder).inv.served_of_stuck hstuck
  have hexplains := (served_in_order haccept.reachable hlater.steps).2 _ later haccept hlater
  exact ⟨_, n', later, haccept, hlater, fun i => (hserved i).1, hexplains⟩

end Identifier
end Clacks
