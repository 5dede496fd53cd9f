import NetworkOs.Ftp.Reports

/-! What the descriptor variables hold when they are closed. A declined transfer opens no
file, and still closes: the client a variable that was never set, the server the one that
an earlier transfer has closed. -/
namespace NetworkOs.Ftp

/-- The result of an `open`, be it a failure, that was not closed since. -/
def Assigned (target : Descriptor) : Prop := target ≠ .unset ∧ target ≠ .closed

/-- Every `close` in these calls is of a variable that was assigned. -/
def GoodCloses (calls : List Call) : Prop := ∀ target, .close target ∈ calls → Assigned target

/-- What is known between two transfers: the client's flag is a truth value, the server's
variable is not open, and good closes so far mean that no overwriting was declined. -/
structure Accounted (answers : Nat → BitVec 32) (c : Client) (s : Server) : Prop where
  flag : c.fileExists = 0 ∨ c.fileExists = 1
  resting : s.fileDescriptor = .unset ∨ s.fileDescriptor = .closed
  closes : GoodCloses c.host.trace ∧ GoodCloses s.host.trace ↔ ∀ k < c.asked, answers k = 1
  overwrite : (∀ k < c.asked, answers k = 1) → c.overwrite = 1

/-- One transfer: at most one question, calls behind those before, and bad closes only
where `overwrite` is not 1 at its end, as it is behind a question that was declined. -/
structure Moves (answers : Nat → BitVec 32) (c : Client) (s : Server) (c' : Client) (s' : Server) : Prop where
  flag : c'.fileExists = 0 ∨ c'.fileExists = 1
  resting : s'.fileDescriptor = .unset ∨ s'.fileDescriptor = .closed
  asked : c'.asked = c.asked ∧ c'.overwrite = c.overwrite ∨
    c'.asked = c.asked + 1 ∧ c'.overwrite = answers c.asked
  calls : ∃ callsC callsS, c'.host.trace = c.host.trace ++ callsC ∧ s'.host.trace = s.host.trace ++ callsS ∧
    (c'.overwrite = 1 → GoodCloses (callsC ++ callsS)) ∧
    (c'.asked = c.asked + 1 → c'.overwrite ≠ 1 → ¬ GoodCloses (callsC ++ callsS))

theorem goodCloses_append {a b : List Call} : GoodCloses (a ++ b) ↔ GoodCloses a ∧ GoodCloses b := by
  constructor
  · intro good
    exact ⟨fun target member => good target (List.mem_append_left _ member),
      fun target member => good target (List.mem_append_right _ member)⟩
  · rintro ⟨first, second⟩ target member
    rcases List.mem_append.mp member with early | late
    · exact first target early
    · exact second target late

section Transfers
variable {osC osS : Os} {answers : Nat → BitVec 32} {c c' : Client} {s s' : Server}

/-- A transfer keeps the account: a question that is declined makes both sides false. -/
theorem Accounted.moves (h : Accounted answers c s) (moves : Moves answers c s c' s') : Accounted answers c' s' := by
  obtain ⟨callsC, callsS, traceC, traceS, granted, declined⟩ := moves.calls
  have split : GoodCloses c'.host.trace ∧ GoodCloses s'.host.trace ↔
      (GoodCloses c.host.trace ∧ GoodCloses s.host.trace) ∧ GoodCloses (callsC ++ callsS) := by
    rw [traceC, traceS, goodCloses_append, goodCloses_append, goodCloses_append]
    tauto
  have overwrite : (∀ k < c'.asked, answers k = 1) → c'.overwrite = 1 := by
    intro all
    rcases moves.asked with ⟨asked, kept⟩ | ⟨asked, answer⟩
    · rw [kept]
      exact h.overwrite (asked ▸ all)
    · rw [answer]
      exact all c.asked (by omega)
  refine ⟨moves.flag, moves.resting, ?_, overwrite⟩
  rw [split, h.closes]
  constructor
  · rintro ⟨before, good⟩ k less
    rcases moves.asked with ⟨asked, -⟩ | ⟨asked, answer⟩
    · exact before k (by omega)
    · by_cases last : k = c.asked
      · subst last
        by_contra other
        exact declined asked (answer ▸ other) good
      · exact before k (by omega)
  · intro all
    refine ⟨fun k less => all k ?_, granted (overwrite all)⟩
    rcases moves.asked with ⟨asked, -⟩ | ⟨asked, -⟩ <;> omega

theorem closed_eq {os : Os} {target : Descriptor} {h h' : Host} (done : closed os target h = some h') :
    h' = h.close target := by
  unfold closed at done
  split_ifs at done
  exact (Option.some.inj done).symm

theorem assigned_target {os : Os} {flag : BitVec 32} (bit : flag = 0 ∨ flag = 1) (name : Str) (old : Descriptor)
    (h : Host) :
    Assigned (h.openForContent os flag 1 name old).1 := by
  rcases Host.openForContent_target os name old h bit with failed | opened
  · rw [failed]
    exact ⟨by simp, by simp⟩
  · rw [opened]
    exact ⟨by simp, by simp⟩

theorem assigned_openRead (os : Os) (name : Str) (h : Host) : Assigned (h.openRead os name) := by
  rcases openRead_cases os name h with failed | ⟨opened, -⟩
  · rw [failed]
    exact ⟨by simp, by simp⟩
  · rw [opened]
    exact ⟨by simp, by simp⟩

theorem goodCloses_close (target : Descriptor) : GoodCloses [.close target] ↔ Assigned target := by
  simp [GoodCloses]

theorem goodCloses_transfer (name : Str) (opened written target : Descriptor) (bytes : Str) (result : Int) :
    GoodCloses [.openWrite name opened, .write written bytes result, .close target] ↔ Assigned target := by
  simp [GoodCloses]

theorem not_assigned_resting {target : Descriptor} (resting : target = .unset ∨ target = .closed) : ¬ Assigned target := by
  rcases resting with rfl | rfl
  · exact fun both => both.1 rfl
  · exact fun both => both.2 rfl

/-- The calls of a granted transfer: the file is opened, written and closed. -/
theorem stored_closed_trace (os : Os) {flag : BitVec 32} (bit : flag = 0 ∨ flag = 1) (name : Str) (old : Descriptor)
    (bytes : Str) (h : Host) : let opened := h.openForContent os flag 1 name old
    ∃ calls, ((opened.2.tick.write os opened.1 bytes).2.close opened.1).trace = h.trace ++ calls ∧ GoodCloses calls := by
  intro opened
  obtain ⟨target, result, trace⟩ := Host.stored_trace os name old h bit bytes
  refine ⟨[.openWrite name target, .write target bytes result, .close opened.1], ?_, ?_⟩
  · change (h.stored os flag name old bytes).trace ++ _ = _
    rw [trace, List.append_assoc]
    rfl
  · exact (goodCloses_transfer _ _ _ _ _ _).mpr (assigned_target bit name old h)

/-- What "put" does to the descriptors, behind the command. -/
structure PutMoves (answers : Nat → BitVec 32) (c : Client) (s : Server) (c' : Client) (s' : Server) : Prop where
  host : c'.host = c.host
  fileDescriptor : c'.fileDescriptor = c.fileDescriptor
  flag : c'.fileExists = 0 ∨ c'.fileExists = 1
  resting : s'.fileDescriptor = .closed
  asked : c'.asked = c.asked ∧ c'.overwrite = c.overwrite ∨
    c'.asked = c.asked + 1 ∧ c'.overwrite = answers c.asked
  calls : ∃ calls, s'.host.trace = s.host.trace ++ calls ∧ (c'.overwrite = 1 ↔ GoodCloses calls)

theorem server_closed_eq {os : Os} {t t' : Server} (done : t.closed os = some t') :
    t'.host = t.host.close t.fileDescriptor ∧ t'.fileDescriptor = .closed := by
  obtain ⟨host, ended, rfl⟩ := Option.map_eq_some_iff.mp done
  exact ⟨closed_eq ended, rfl⟩

theorem askIfFlagged_asked (answers : Nat → BitVec 32) (c : Client) :
    (c.askIfFlagged answers).asked = c.asked ∧ (c.askIfFlagged answers).overwrite = c.overwrite ∨
      (c.askIfFlagged answers).asked = c.asked + 1 ∧ (c.askIfFlagged answers).overwrite = answers c.asked := by
  unfold Client.askIfFlagged
  split_ifs
  · exact .inl ⟨rfl, rfl⟩
  · exact .inr ⟨rfl, rfl⟩

theorem putTransfer_moves {filename stream : Str} (resting : s.fileDescriptor = .unset ∨ s.fileDescriptor = .closed)
    (done : putTransfer osS answers filename stream c s = some (c', s')) : PutMoves answers c s c' s' := by
  simp only [putTransfer] at done
  have bit : ((s.name stream).flag).fileExists = 0 ∨ ((s.name stream).flag).fileExists = 1 := flag_sent _
  have asked := askIfFlagged_asked answers { c with fileExists := ((s.name stream).flag).fileExists }
  have host : ({ c with fileExists := ((s.name stream).flag).fileExists }.askIfFlagged answers).host = c.host := by simp
  have descriptor : ({ c with fileExists := ((s.name stream).flag).fileExists }.askIfFlagged answers).fileDescriptor =
      c.fileDescriptor := by simp
  have flag : ({ c with fileExists := ((s.name stream).flag).fileExists }.askIfFlagged answers).fileExists =
      ((s.name stream).flag).fileExists := by simp
  generalize { c with fileExists := ((s.name stream).flag).fileExists }.askIfFlagged answers = q at *
  obtain ⟨⟨c₁, s₁⟩, transferred, closing⟩ := Option.bind_eq_some_iff.mp done
  obtain ⟨s₂, server, same⟩ := Option.map_eq_some_iff.mp closing
  cases same
  obtain ⟨hostS, rests⟩ := server_closed_eq server
  split_ifs at transferred with granted
  · obtain ⟨size, sized, rest⟩ := Option.bind_eq_some_iff.mp transferred
    simp only at rest
    split_ifs at rest with bad
    cases rest
    refine ⟨host, descriptor, flag ▸ bit, rests, asked, ?_⟩
    rw [hostS, granted]
    obtain ⟨calls, trace, good⟩ := stored_closed_trace osS bit ((s.name stream).flag).filename s.fileDescriptor
      (q.host.sendfile q.fileDescriptor (BitVec.ofNat 32 size)) s.host
    exact ⟨calls, trace, iff_of_true granted good⟩
  · cases transferred
    refine ⟨host, descriptor, flag ▸ bit, rests, asked, [.close s.fileDescriptor], ?_, ?_⟩
    · have opened : ((s.name stream).flag).openForContent osS q.overwrite =
          { (s.name stream).flag with overwrite := q.overwrite } := by
        unfold Server.openForContent
        rw [Host.openForContent_declined granted]
      rw [hostS, opened]
      rfl
    · rw [goodCloses_close]
      exact iff_of_false granted (not_assigned_resting resting)

theorem putFile_moves {filename : Str} (resting : s.fileDescriptor = .unset ∨ s.fileDescriptor = .closed)
    (done : putFile osC osS answers filename c s = some (c', s')) : Moves answers c s c' s' := by
  obtain ⟨⟨c₁, s₁⟩, transferred, closing⟩ := Option.bind_eq_some_iff.mp done
  obtain ⟨c₂, client, same⟩ := Option.map_eq_some_iff.mp closing
  cases same
  obtain ⟨host, ended, rfl⟩ := Option.map_eq_some_iff.mp client
  have put := putTransfer_moves
    (s := (s.hear (c.host.padded osC 100 (commandText putWord filename))).2) resting transferred
  obtain ⟨calls, trace, good⟩ := put.calls
  have source : c₁.fileDescriptor = c.host.openRead osC filename := put.fileDescriptor
  refine ⟨put.flag, .inr put.resting, put.asked, [.close (c.host.openRead osC filename)], calls, ?_, trace, ?_, ?_⟩
  · rw [closed_eq ended, source, put.host]
    rfl
  · intro granted
    exact goodCloses_append.mpr ⟨(goodCloses_close _).mpr (assigned_openRead osC filename c.host), good.mp granted⟩
  · intro _ declined both
    exact declined (good.mpr (goodCloses_append.mp both).2)

theorem askIfPresent_asked (answers : Nat → BitVec 32) (name : Str) (c : Client) :
    (c.askIfPresent answers name).asked = c.asked ∧ (c.askIfPresent answers name).overwrite = c.overwrite ∨
      (c.askIfPresent answers name).asked = c.asked + 1 ∧ (c.askIfPresent answers name).overwrite = answers c.asked := by
  unfold Client.askIfPresent
  split_ifs
  · exact .inr ⟨rfl, rfl⟩
  · exact .inl ⟨rfl, rfl⟩

theorem getOne_moves {file : Str} (bit : c.fileExists = 0 ∨ c.fileExists = 1)
    (done : getOne osC osS answers file c s = some (c', s')) : Moves answers c s c' s' := by
  obtain ⟨⟨c₁, s₁⟩, transferred, closing⟩ := Option.bind_eq_some_iff.mp done
  obtain ⟨s₂, server, same⟩ := Option.map_eq_some_iff.mp closing
  cases same
  obtain ⟨hostS, rests⟩ := server_closed_eq server
  obtain ⟨size, sized, rest⟩ := Option.bind_eq_some_iff.mp transferred
  have closes : GoodCloses [.close (s.host.openRead osS file)] :=
    (goodCloses_close _).mpr (assigned_openRead osS file s.host)
  simp only at rest
  have asked := askIfPresent_asked answers (cString c.filename) c
  have flag := flag_asked answers (cString c.filename) bit
  have host : (c.askIfPresent answers (cString c.filename)).host = c.host := by simp
  generalize c.askIfPresent answers (cString c.filename) = q at *
  split_ifs at rest with zero granted negative
  · cases rest
    refine ⟨bit, .inr rests, .inl ⟨rfl, rfl⟩, [], _, (List.append_nil _).symm, ?_, fun _ => closes, ?_⟩
    · rw [hostS]
      rfl
    · exact fun more => absurd more.symm (Nat.succ_ne_self _)
  · obtain ⟨h, ended, same⟩ := Option.map_eq_some_iff.mp rest
    cases same
    obtain ⟨calls, trace, good⟩ := stored_closed_trace osC flag (cString c.filename) .unset
      (s.host.sendfile (s.host.openRead osS file) (BitVec.ofNat 32 size)) q.host
    refine ⟨flag, .inr rests, asked, calls, _, ?_, by rw [hostS]; rfl, ?_, fun _ declined => absurd granted declined⟩
    · rw [closed_eq ended, granted, ← host]
      exact trace
    · exact fun _ => goodCloses_append.mpr ⟨good, closes⟩
  · obtain ⟨h, ended, same⟩ := Option.map_eq_some_iff.mp rest
    cases same
    refine ⟨flag, .inr rests, asked, [.close .unset], _, ?_, by rw [hostS]; rfl, fun one => absurd one granted, ?_⟩
    · rw [closed_eq ended, Host.openForContent_declined granted, ← host]
      rfl
    · exact fun _ _ both => ((goodCloses_append.mp both).1 .unset (by simp)).1 rfl

/-- Between transfers `overwrite` may be set to 1 again, and what is no descriptor changes. -/
theorem Accounted.between (h : Accounted answers c s) (flag : c'.fileExists = 0 ∨ c'.fileExists = 1)
    (descriptor : s'.fileDescriptor = s.fileDescriptor) (client : c'.host.trace = c.host.trace)
    (server : s'.host.trace = s.host.trace) (asked : c'.asked = c.asked)
    (overwrite : c'.overwrite = c.overwrite ∨ c'.overwrite = 1) : Accounted answers c' s' := by
  refine ⟨flag, descriptor ▸ h.resting, ?_, ?_⟩
  · rw [client, server, asked]
    exact h.closes
  · intro all
    rcases overwrite with kept | set
    · rw [kept]
      exact h.overwrite (asked ▸ all)
    · exact set

theorem Accounted.putAll {lines : List Str} (h : Accounted answers c s)
    (done : putAll osC osS answers lines c s = some (c', s')) : Accounted answers c' s' := by
  induction lines generalizing c s with
  | nil =>
      cases done
      exact h
  | cons line rest ih =>
      obtain ⟨⟨c₁, s₁⟩, first, later⟩ := Option.bind_eq_some_iff.mp done
      have moved := h.moves (putFile_moves h.resting first)
      have again : Accounted answers { c₁ with overwrite := 1 } s₁ :=
        moved.between moved.flag rfl rfl rfl rfl (.inr rfl)
      exact ih again later

theorem Accounted.getAll {files : List Str} (h : Accounted answers c s)
    (done : getAll osC osS answers files c s = some (c', s')) : Accounted answers c' s' := by
  induction files generalizing c s with
  | nil =>
      cases done
      exact h
  | cons file rest ih =>
      obtain ⟨⟨c₁, s₁⟩, first, later⟩ := Option.bind_eq_some_iff.mp done
      have named : Accounted answers { c with filename := overlay c.filename (s.host.padded osS 20 file) }
          { s with host := s.host.tick } := h.between h.flag rfl rfl rfl rfl (.inl rfl)
      have moved := named.moves (getOne_moves named.flag first)
      have again : Accounted answers { c₁ with overwrite := 1, fileExists := 0, numFiles := c₁.numFiles - 1 } s₁ :=
        moved.between (.inl rfl) rfl rfl rfl rfl (.inr rfl)
      exact ih again later

/-- One command keeps the account. -/
theorem Accounted.exchange {command : Command} (h : Accounted answers c s)
    (done : exchange osC osS answers c s command = some (c', s')) : Accounted answers c' s' := by
  cases command with
  | put filename =>
      have entered : Accounted answers (c.enter filename) s := h.between h.flag rfl rfl rfl rfl (.inl rfl)
      simp only [Ftp.exchange] at done
      split_ifs at done
      · exact entered.moves (putFile_moves entered.resting done)
      · cases done
        exact entered
  | get filename =>
      have asked : Accounted answers (c.enter filename).tick
          ((s.hear ((c.enter filename).host.padded osC 100 (commandText getWord filename))).2.name
            (s.hear ((c.enter filename).host.padded osC 100 (commandText getWord filename))).1) :=
        h.between h.flag rfl rfl rfl rfl (.inl rfl)
      exact asked.moves (getOne_moves asked.flag done)
  | mput extension =>
      obtain ⟨⟨c₁, s₁⟩, all, same⟩ := Option.map_eq_some_iff.mp done
      cases same
      have listed : Accounted answers { c with host := c.host.list osC extension } s :=
        h.between h.flag rfl rfl rfl rfl (.inl rfl)
      have put := listed.putAll all
      exact put.between put.flag rfl rfl rfl rfl (.inl rfl)
  | mget extension =>
      obtain ⟨⟨c₁, s₁⟩, all, same⟩ := Option.map_eq_some_iff.mp done
      cases same
      have listed : Accounted answers { c.tick with
          numFiles := BitVec.ofNat 32 ((mgetListed osC osS extension c s).host.listed osS).length }
          (mgetListed osC osS extension c s) := h.between h.flag rfl rfl rfl rfl (.inl rfl)
      have got := listed.getAll all
      exact got.between got.flag rfl rfl rfl rfl (.inl rfl)

theorem accounted_initial (answers : Nat → BitVec 32) (dirC dirS : Dir) :
    Accounted answers (Client.initial dirC) (Server.initial dirS) := by
  have empty : GoodCloses [] := fun _ member => absurd member List.not_mem_nil
  refine ⟨.inl rfl, .inl rfl, iff_of_true ⟨empty, empty⟩ fun k less => ?_, fun _ => rfl⟩
  exact absurd less (Nat.not_lt_zero k)

end Transfers

/-- Between the files of an "mput" or "mget" that follows, be it that a process ends in a later one. -/
inductive Partway (osC osS : Os) (answers : Nat → BitVec 32) (x y : Client × Server) : Prop where
  | mput (extension : Str) (files : Nat)
      (done : putAll osC osS answers (((x.1.host.list osC extension).listed osC).take files)
        { x.1 with host := x.1.host.list osC extension } x.2 = some y)
  | mget (extension : Str) (files : Nat)
      (done : getAll osC osS answers (((mgetListed osC osS extension x.1 x.2).host.listed osS).take files)
        { x.1.tick with
          numFiles := BitVec.ofNat 32 ((mgetListed osC osS extension x.1 x.2).host.listed osS).length }
        (mgetListed osC osS extension x.1 x.2) = some y)

theorem Accounted.partway {osC osS : Os} {answers : Nat → BitVec 32} {x y : Client × Server}
    (h : Accounted answers x.1 x.2) (partway : Partway osC osS answers x y) : Accounted answers y.1 y.2 := by
  cases partway with
  | mput extension files done =>
      have listed : Accounted answers { x.1 with host := x.1.host.list osC extension } x.2 :=
        h.between h.flag rfl rfl rfl rfl (.inl rfl)
      exact listed.putAll done
  | mget extension files done =>
      have listed : Accounted answers { x.1.tick with
          numFiles := BitVec.ofNat 32 ((mgetListed osC osS extension x.1 x.2).host.listed osS).length }
          (mgetListed osC osS extension x.1 x.2) := h.between h.flag rfl rfl rfl rfl (.inl rfl)
      exact listed.getAll done

/-- Over every history, each variable that is closed was assigned by an `open` since it was
closed last, exactly if every question about overwriting was answered with 1. So it is between
the files of a further command. -/
theorem closes_assigned_iff {osC osS : Os} {answers : Nat → BitVec 32} {dirC dirS : Dir} {history : List Command}
    {x : Client × Server}
    (ran : Runs.run (step osC osS answers) (Client.initial dirC, Server.initial dirS) history = some x) :
    (GoodCloses x.1.host.trace ∧ GoodCloses x.2.host.trace ↔ ∀ k < x.1.asked, answers k = 1) ∧
    ∀ y, Partway osC osS answers x y →
      (GoodCloses y.1.host.trace ∧ GoodCloses y.2.host.trace ↔ ∀ k < y.1.asked, answers k = 1) := by
  have accounted : Accounted answers x.1 x.2 := by
    refine Runs.run_invariant (P := fun x => Accounted answers x.1 x.2) ?_ (accounted_initial answers dirC dirS) ran
    rintro ⟨c, s⟩ command ⟨c', s'⟩ before taken
    rw [step_eq_exchange] at taken
    exact before.exchange taken
  exact ⟨accounted.closes, fun y partway => (accounted.partway partway).closes⟩

/-- A file that both sides have is put and fetched. -/
theorem closes_assigned_iff_granted : ∃ x, Runs.run (step unix superuser fun _ => 1)
    (Client.initial (dirOf [(['a'], ['x'])]), Server.initial (dirOf [(['a'], ['y'])]))
    [.put (ascii ['a']), .get (ascii ['a'])] = some x ∧
      GoodCloses x.1.host.trace ∧ GoodCloses x.2.host.trace := by
  have evaluated : (Runs.run (step unix superuser fun _ => 1)
      (Client.initial (dirOf [(['a'], ['x'])]), Server.initial (dirOf [(['a'], ['y'])]))
      [.put (ascii ['a']), .get (ascii ['a'])]).isSome = true := by decide
  obtain ⟨x, ran⟩ := Option.isSome_iff_exists.mp evaluated
  exact ⟨x, ran, (closes_assigned_iff ran).1.mpr fun _ _ => rfl⟩

/-- With the answer 2 the client closes a variable that was never set. -/
theorem declined_get_closes_unset :
    ¬ ∀ (osC osS : Os) (answers : Nat → BitVec 32) (dirC dirS : Dir) (history : List Command) (x : Client × Server),
      Runs.run (step osC osS answers) (Client.initial dirC, Server.initial dirS) history = some x →
        GoodCloses x.1.host.trace ∧ GoodCloses x.2.host.trace := by
  intro claim
  let dir := dirOf [(['a'], ['x'])]
  have evaluated : (Runs.run (step unix unix fun _ => 2) (Client.initial dir, Server.initial dir)
      [.get (ascii ['a'])]).any (fun x => decide (.close .unset ∈ x.1.host.trace)) = true := by decide
  obtain ⟨x, ran, closed⟩ := (Option.any_eq_true _ _).mp evaluated
  exact ((claim unix unix _ dir dir _ x ran).1 .unset (of_decide_eq_true closed)).1 rfl

end NetworkOs.Ftp
