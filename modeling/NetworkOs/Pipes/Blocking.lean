import NetworkOs.Pipes.Eager

/-! When the children never block each other. Each of them reads once, at most `BUFSIZ` bytes,
so what it leaves unread has to fit into the pipe with all that is still written. -/
namespace NetworkOs.Pipes
open Runs Words

section Condition
variable (os : Os) (beyond1 beyond2 : Str) (fs : Files)

/-- Under every interleaving a state without a next step is one where both children are done. -/
def NeverStuck : Prop :=
  ∀ turns s, Guarded (step os beyond1 beyond2) (Eager os) (start fs) turns →
    run (step os beyond1 beyond2) (start fs) turns = some s → Stuck (step os beyond1 beyond2) s → Finished s

/-- The messages fit: what one read of the other child does not take goes into the pipe. Nobody
reads an error that child 1 reports at the end, and child 1 reads nothing after one at the start. -/
def MessagesFit : Prop :=
  (firstMessage os fs).length ≤ os.capacity + os.bufsiz ∧
    if (opening os fs).2 then
      (answer os beyond2 fs).2.length ≤ os.capacity + os.bufsiz ∧
        ∀ failure, (ending os beyond1 beyond2 fs).2 = some failure →
          (firstMessage os fs).length - os.bufsiz + (message failure).length ≤ os.capacity
    else (answer os beyond2 fs).2.length ≤ os.capacity

end Condition

section Lengths
variable {os : Os} {beyond1 beyond2 : Str} {fs : Files}

/-- A `write` that is read once, as much as the buffer takes. -/
theorem writeEnds_chunk (enough : os.bufsiz ≤ os.capacity) (bytes : Str) :
    os.writeEnds bytes (os.chunk bytes).length ↔ bytes.length ≤ os.capacity + os.bufsiz := by
  rw [Os.writeEnds, Os.chunk, List.length_take, Nat.min_eq_left enough]
  omega

theorem writeEnds_report (enough : os.bufsiz ≤ os.capacity) (bytes report : Str) :
    os.writeEnds (bytes.drop (os.chunk bytes).length ++ report) 0 ↔
      bytes.length - os.bufsiz + report.length ≤ os.capacity := by
  rw [Os.writeEnds, Os.chunk, List.length_append, List.length_drop, List.length_take, Nat.min_eq_left enough]
  omega

/-- The sequential program has a result exactly when the messages fit. -/
theorem main_isSome_iff (enough : os.bufsiz ≤ os.capacity) :
    (main os beyond1 beyond2 fs).isSome ↔ MessagesFit os beyond1 beyond2 fs := by
  rw [Option.isSome_iff_exists, MessagesFit]
  cases reads : (opening os fs).2 with
  | true =>
      simp only [main_reading reads, writeEnds_chunk enough, writeEnds_report enough, if_true]
      constructor
      · rintro ⟨fs', first, second, third, -⟩
        exact ⟨first, second, third⟩
      · rintro ⟨first, second, third⟩
        exact ⟨_, first, second, third, rfl⟩
  | false =>
      simp only [main_failing reads, writeEnds_chunk enough, Bool.false_eq_true, if_false]
      constructor
      · rintro ⟨fs', first, second, -⟩
        exact ⟨first, second⟩
      · rintro ⟨first, second⟩
        exact ⟨_, first, second, rfl⟩

/-- The children block each other exactly when the sequential program has no result. -/
theorem neverStuck_iff_main : NeverStuck os beyond1 beyond2 fs ↔ (main os beyond1 beyond2 fs).isSome := by
  constructor
  · intro never
    obtain ⟨turns, s, eager, ran, stuck⟩ := exists_eager_end os beyond1 beyond2 (start fs)
    obtain ⟨pass, roomy⟩ := eager_pass eager ran
    exact Option.isSome_of_eq_some (pass.finished roomy (never turns s eager ran stuck))
  · intro result turns s eager ran stuck
    obtain ⟨pass, roomy⟩ := eager_pass eager ran
    exact pass.unblocked roomy result stuck

/-- With readable files in `d1` their contents alone decide how long the first message is. -/
theorem firstMessage_length (openable : os.Openable) {c1 c2 c3 c4 : Str}
    (before : Before c1 c2 c3 c4 fs) : (firstMessage os fs).length = c1.length + c2.length + 15 := by
  rw [firstMessage, opening, before.sends (openable.reads (.inl rfl) plain_first)]
  change (message (msg1 c1 c2)).length = _
  rw [length_message, length_msg1]

end Lengths

/-- The children can always go on until both are done exactly when their messages fit. -/
theorem children_never_stuck_iff {os : Os} (enough : os.bufsiz ≤ os.capacity) (beyond1 beyond2 : Str) (fs : Files) :
    NeverStuck os beyond1 beyond2 fs ↔ MessagesFit os beyond1 beyond2 fs :=
  neverStuck_iff_main.trans (main_isSome_iff enough)

/-- With files of one letter each the children never block. -/
theorem children_never_stuck_letters : let c := line stray
    NeverStuck permissive [] [] (directories c c c c) := by
  intro c
  refine (children_never_stuck_iff (by decide) [] [] _).mpr ⟨?_, ?_⟩
  · rw [firstMessage_length permissive_openable (directories_before c c c c)]
    decide
  · have reads : (opening permissive (directories c c c c)).2 = true := by decide
    have short : (answer permissive [] (directories c c c c)).2.length ≤ 65536 + 8192 := by decide
    rw [if_pos reads]
    refine ⟨short, fun failure reported => ?_⟩
    rw [ending, child1Receives, decode_completes _ _ fun _ _ => rfl] at reported
    cases reported

/-- A file of 73714 bytes leaves child 1 in its `write` once child 2 has read. -/
theorem long_file_blocks :
    ¬ ∀ (os : Os), os.bufsiz ≤ os.capacity → ∀ beyond1 beyond2 fs, NeverStuck os beyond1 beyond2 fs := by
  intro claim
  let long : Str := List.replicate 73714 space
  have size := firstMessage_length permissive_openable (directories_before long [] [] [])
  rw [List.length_replicate, List.length_nil] at size
  have fits := (main_isSome_iff (by decide)).mp
    (neverStuck_iff_main.mp (claim permissive (by decide) [] [] (directories long [] [] [])))
  have short := fits.1
  rw [size] at short
  exact absurd short (by decide)

end NetworkOs.Pipes
