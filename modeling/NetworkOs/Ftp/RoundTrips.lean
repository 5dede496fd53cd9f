import NetworkOs.Ftp.Reports

/-! A file that is put and then fetched back. An announced size of 0 leaves the server in a `recv` of
0 bytes, and tells the client that there is no such file. -/
namespace NetworkOs.Ftp
open Duplex Proc

theorem length_kept_le (os : Os) (bytes : Str) : (os.kept bytes).length ≤ bytes.length := List.length_take_le' _ _

theorem kept_eq_of_length (os : Os) {bytes : Str} (whole : bytes.length ≤ (os.kept bytes).length) :
    os.kept bytes = bytes := by
  rw [Os.kept, List.length_take] at whole
  exact List.take_of_length_le (by omega)

section Get
variable {osC osS : Os} {answers : Nat → BitVec 32} {name : Str} {c : Client} {s : Server}

/-- A granted transfer to the client ends unless the size is negative as an `int`. -/
theorem getOne_granted (osC : Os) {file : Str} (bit : c.fileExists = 0 ∨ c.fileExists = 1)
    (granted : (c.askIfPresent answers (cString c.filename)).overwrite = 1) {size : Nat}
    (announced : (s.openRead osS file).announced file = some size) (positive : ¬ (BitVec.ofNat 32 size).toInt < 0) :
    ∃ x, getOne osC osS answers file c s = some x := by
  have source : (s.openRead osS file).fileDescriptor ≠ .unset := openRead_set osS file s.host
  have target := openForContent_set osC (flag_asked answers (cString c.filename) bit) (cString c.filename)
    .unset (c.askIfPresent answers (cString c.filename)).host
  by_cases zero : BitVec.ofNat 32 size = 0
  · simp only [getOne, getTransfer, announced, Option.bind_some, if_pos zero, Server.closed, closed_set source]
    exact ⟨_, rfl⟩
  · simp only [getOne, getTransfer, announced, Option.bind_some, if_neg zero, granted, if_true, if_neg positive,
      closed_set target, Option.map_some, Server.closed, closed_set source]
    exact ⟨_, rfl⟩

theorem askIfPresent_absent (one : Name name) (absent : contentOf c.host.dir name = none) :
    c.askIfPresent answers name = c := by
  refine if_neg ?_
  have missing := Option.map_eq_none_iff.mp absent
  rw [one.toEntry.exists_eq, missing]
  simp

/-- A "get" of a file that the client does not have, with `overwrite` still 1. -/
theorem step_get_absent (answers : Nat → BitVec 32) {x : Client × Server} {content : Str}
    (opensC : Opens osC) (opensS : Opens osS) (one : Name name) (bit : x.1.fileExists = 0 ∨ x.1.fileExists = 1)
    (overwrite : x.1.overwrite = 1) (held : contentOf x.2.host.dir name = some content)
    (small : content.length < 2147483648) (absent : contentOf x.1.host.dir name = none) :
    ∃ x', step osC osS answers x (.get name) = some x' ∧
      contentOf x'.1.host.dir name = if content ≠ [] then some (osC.kept content) else none := by
  have named := name_entered one x.1
  have heard := argument_heard osC token_get (by decide) (x.1.enter name).host one
    (x.2.hear ((x.1.enter name).host.padded osC 100 (commandText getWord name))).2.filename x.2
  have whole : sent content = content := (sent_eq_self content).mpr (by omega)
  obtain ⟨t, served⟩ : ∃ t, t = (x.2.hear ((x.1.enter name).host.padded osC 100 (commandText getWord name))).2.name
      (x.2.hear ((x.1.enter name).host.padded osC 100 (commandText getWord name))).1 := ⟨_, rfl⟩
  have filename : t.filename = name := served ▸ heard
  have dir : contentOf t.host.dir name = some content := served ▸ held
  have granted : ((x.1.enter name).tick.askIfPresent answers (cString (x.1.enter name).tick.filename)).overwrite = 1 := by
    change ((x.1.enter name).tick.askIfPresent answers (cString (x.1.enter name).filename)).overwrite = 1
    rw [named, askIfPresent_absent (c := (x.1.enter name).tick) one absent]
    exact overwrite
  have positive : ¬ (BitVec.ofNat 32 content.length).toInt < 0 := by
    rw [size_toInt small]
    omega
  obtain ⟨⟨c', s'⟩, done⟩ := getOne_granted osC (c := (x.1.enter name).tick) bit granted
    (announced_held opensS dir) positive
  refine ⟨(c', s'), ?_, ?_⟩
  · rw [step_eq_exchange]
    simp only [exchange]
    rw [← served, filename]
    exact done
  · have result := getOne_kept (c := (x.1.enter name).tick) opensC opensS bit named one dir absent done
    rw [result, whole]
    simp [Client.enter, Client.tick, overwrite]

end Get

/-- A file is put with `overwrite` granted, and comes back into a directory without it, exactly if it is
not empty and both calls of `write` store all of it. -/
theorem put_then_get {osC osS : Os} {answers : Nat → BitVec 32} (opensC : Opens osC) (opensS : Opens osS)
    {x : Client × Server} {name content : Str} (one : Name name)
    (held : contentOf x.1.host.dir name = some content) (small : content.length < 2147483648)
    (granted : Granted answers name x.1 x.2) {dir : Dir} (absent : name ∉ dir) :
    (∃ x₁ x₂, step osC osS answers x (.put name) = some x₁ ∧
      step osC osS answers ({ x₁.1 with host := { x₁.1.host with dir := dir } }, x₁.2) (.get name) = some x₂ ∧
      contentOf x₂.1.host.dir name = some content) ↔
      content ≠ [] ∧ osS.kept content = content ∧ osC.kept content = content := by
  have whole : sent content = content := (sent_eq_self content).mpr (by omega)
  have missing : contentOf dir name = none := by
    rw [contentOf, AList.lookup_eq_none.mpr absent]
    rfl
  obtain ⟨ends, transfers⟩ := step_put_granted osC osS one held granted
  -- behind a "put" that ends, the "get" ends too and brings what both sides kept
  have fetched (x₁ : Client × Server) (put_ : step osC osS answers x (.put name) = some x₁) :
      ∃ x₂, step osC osS answers ({ x₁.1 with host := { x₁.1.host with dir := dir } }, x₁.2) (.get name) = some x₂ ∧
        contentOf x₂.1.host.dir name =
          if osS.kept content ≠ [] then some (osC.kept (osS.kept content)) else none := by
    obtain ⟨-, put⟩ := ends x₁ put_
    rw [whole] at put
    have stored : contentOf x₁.2.host.dir name = some (osS.kept content) := by
      rw [put.stored]
      exact (putWritten_opened _ (opensS.canOpen one.nonempty one.toEntry x.2.host)).1
    have shorter := length_kept_le osS content
    exact step_get_absent answers
      (x := ({ x₁.1 with host := { x₁.1.host with dir := dir } }, x₁.2)) opensC opensS one put.flag put.overwrite
      stored (by omega) missing
  constructor
  · rintro ⟨x₁, x₂, put_, got, back⟩
    obtain ⟨x₂', got', result⟩ := fetched x₁ put_
    obtain rfl := Option.some.inj (got.symm.trans got')
    obtain ⟨filled, same⟩ := guarded_some.mp (result.symm.trans back)
    have kept := kept_eq_of_length osS (by
      calc content.length = (osC.kept (osS.kept content)).length := by rw [same]
        _ ≤ (osS.kept content).length := length_kept_le osC _)
    rw [kept] at filled same
    exact ⟨filled, kept, same⟩
  · rintro ⟨filled, keptS, keptC⟩
    have sendable : Sendable osC x.1.host.dir name := by
      obtain ⟨file, source, rfl⟩ := Option.map_eq_some_iff.mp held
      have some_ := List.length_pos_iff.mpr filled
      exact sendable_iff.mpr ⟨file, source, opensC.reads _, by rw [size_toInt small]; omega⟩
    obtain ⟨x₁, put_⟩ := transfers sendable
    obtain ⟨x₂, got, result⟩ := fetched x₁ put_
    refine ⟨x₁, x₂, put_, got, ?_⟩
    rw [result, keptS, if_pos filled, keptC]

theorem put_then_get_one_byte :
    let x := (Client.initial (dirOf [(['a'], ['x'])]), Server.initial ∅)
    ∃ x₁ x₂, step superuser superuser (fun _ => 1) x (.put (ascii ['a'])) = some x₁ ∧
      step superuser superuser (fun _ => 1) ({ x₁.1 with host := { x₁.1.host with dir := ∅ } }, x₁.2)
        (.get (ascii ['a'])) = some x₂ ∧ contentOf x₂.1.host.dir (ascii ['a']) = some (ascii ['x']) := by
  intro x
  have held : contentOf x.1.host.dir (ascii ['a']) = some (ascii ['x']) := by decide
  exact (put_then_get superuser_permissive.toOpens superuser_permissive.toOpens name_a held
    (by decide) (show Granted (fun _ => 1) (ascii ['a']) x.1 x.2 by decide) (AList.notMem_empty _)).mpr
    ⟨by decide, by decide, by decide⟩

/-- The "put" of an empty file leaves the server in a `recv` of 0 bytes, while the client waits for the
status: it never ends. -/
theorem empty_put_starves :
    let x := (Client.initial (dirOf [(['a'], [])]), Server.initial ∅)
    Permissive superuser ∧ Name (ascii ['a']) ∧ contentOf x.1.host.dir (ascii ['a']) = some [] ∧
      Granted (fun _ => 1) (ascii ['a']) x.1 x.2 ∧
      (∃ cfg, Reaches (serverLoop superuser)
        (Config.start (runCommand superuser (fun _ => 1) x.1 (.put (ascii ['a']))) (pure x.2)) cfg ∧
          Starved (serverLoop superuser) cfg) ∧
      ¬ ∃ x₁ x₂, step superuser superuser (fun _ => 1) x (.put (ascii ['a'])) = some x₁ ∧
        step superuser superuser (fun _ => 1) ({ x₁.1 with host := { x₁.1.host with dir := ∅ } }, x₁.2)
          (.get (ascii ['a'])) = some x₂ ∧ contentOf x₂.1.host.dir (ascii ['a']) = some [] := by
  intro x
  have held : contentOf x.1.host.dir (ascii ['a']) = some [] := by decide
  have waiting : (lock (serverLoop superuser) (runCommand superuser (fun _ => 1) x.1 (.put (ascii ['a'])))
      (pure x.2)).isWaiting = true := by decide
  have stuck : step superuser superuser (fun _ => 1) x (.put (ascii ['a'])) = none := by
    rw [step, Outcome.eq_waiting waiting]
    rfl
  refine ⟨superuser_permissive, name_a, held, by decide, lock_waiting (Outcome.eq_waiting waiting), ?_⟩
  rintro ⟨x₁, x₂, put_, -⟩
  rw [stuck] at put_
  cases put_

end NetworkOs.Ftp
