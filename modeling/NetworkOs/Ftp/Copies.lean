import NetworkOs.Ftp.Transfers

/-! What a session is for: files of two directories, copied from one to the other as the user
grants it. -/
namespace NetworkOs.Ftp

/-- Whether the command brings files to the server. -/
def Command.uploads : Command → Bool
  | .put _ | .mput _ => true
  | .get _ | .mget _ => false

/-- The contents of the files on both sides, the answer that is in force, and how many
questions the user has answered. -/
@[ext] structure Copies where
  client : Str → Option Str
  server : Str → Option Str
  overwrite : BitVec 32
  asked : Nat

namespace Copies

section Operations
variable (answers : Nat → BitVec 32)

/-- The user is asked where the receiver has the file. -/
def ask (present : Bool) (x : Copies) : Copies :=
  if present then { x with overwrite := answers x.asked, asked := x.asked + 1 } else x

/-- The server's file becomes a copy of the client's. -/
def put (name : Str) (x : Copies) : Copies :=
  match x.client name with
  | none => x
  | some content =>
      let x := x.ask answers (x.server name).isSome
      if x.overwrite = 1 then { x with server := Function.update x.server name (some content) } else x

/-- The client's file becomes a copy of the server's, unless that is empty. -/
def get (name : Str) (x : Copies) : Copies :=
  match x.server name with
  | none | some [] => x
  | some (b :: rest) =>
      let x := x.ask answers (x.client name).isSome
      if x.overwrite = 1 then { x with client := Function.update x.client name (some (b :: rest)) } else x

/-- One file after the other, each of them granted anew behind the last one. -/
def putAll (names : List Str) (x : Copies) : Copies :=
  names.foldl (fun x name => { x.put answers name with overwrite := 1 }) x

def getAll (names : List Str) (x : Copies) : Copies :=
  names.foldl (fun x name => { x.get answers name with overwrite := 1 }) x

/-- The files of this extension, in some order. -/
structure Listing (extension : Str) (files : Str → Option Str) (names : List Str) : Prop where
  once : names.Nodup
  mem_iff : ∀ name, name ∈ names ↔ matchesPattern extension name = true ∧ (files name).isSome = true

inductive Does : Command → Copies → Copies → Prop where
  | put (name : Str) (x : Copies) : Does (.put name) x (x.put answers name)
  | get (name : Str) (x : Copies) : Does (.get name) x (x.get answers name)
  | mput {extension : Str} {x : Copies} {names : List Str} (listing : Listing extension x.client names) :
      Does (.mput extension) x (x.putAll answers names)
  | mget {extension : Str} {x : Copies} {names : List Str} (listing : Listing extension x.server names) :
      Does (.mget extension) x (x.getAll answers names)

inductive Session : List Command → Copies → Copies → Prop where
  | done (x : Copies) : Session [] x x
  | next {command : Command} {rest : List Command} {x y z : Copies} (first : Does answers command x y)
      (later : Session rest y z) : Session (command :: rest) x z

end Operations

section Frames
variable {answers : Nat → BitVec 32} {x : Copies} {name : Str} {names : List Str}

@[simp] theorem ask_client (present : Bool) (x : Copies) : (x.ask answers present).client = x.client := by
  unfold ask
  split_ifs <;> rfl

@[simp] theorem ask_server (present : Bool) (x : Copies) : (x.ask answers present).server = x.server := by
  unfold ask
  split_ifs <;> rfl

theorem put_none (absent : x.client name = none) : x.put answers name = x := by
  simp only [put, absent]

theorem put_some {content : Str} (held : x.client name = some content) : x.put answers name =
    let y := x.ask answers (x.server name).isSome
    if y.overwrite = 1 then { y with server := Function.update y.server name (some content) } else y := by
  simp only [put, held]

theorem get_none (absent : x.server name = none) : x.get answers name = x := by
  simp only [get, absent]

theorem get_empty (empty : x.server name = some []) : x.get answers name = x := by
  simp only [get, empty]

theorem get_some {content : Str} (held : x.server name = some content) (nonempty : content ≠ []) : x.get answers name =
    let y := x.ask answers (x.client name).isSome
    if y.overwrite = 1 then { y with client := Function.update y.client name (some content) } else y := by
  obtain ⟨b, rest, rfl⟩ := List.exists_cons_of_ne_nil nonempty
  simp only [get, held]

/-- A "put" looks at no other file of the client. -/
theorem put_withClient (files : Str → Option Str) (same : files name = x.client name) :
    { x with client := files }.put answers name = { x.put answers name with client := files } := by
  cases held : x.client name with
  | none => rw [put_none held, put_none (x := { x with client := files }) (same.trans held)]
  | some content =>
      rw [put_some held, put_some (x := { x with client := files }) (same.trans held)]
      unfold ask
      dsimp only
      split_ifs <;> rfl

theorem get_withServer (files : Str → Option Str) (same : files name = x.server name) :
    { x with server := files }.get answers name = { x.get answers name with server := files } := by
  cases held : x.server name with
  | none => rw [get_none held, get_none (x := { x with server := files }) (same.trans held)]
  | some content =>
      by_cases empty : content = []
      · subst empty
        rw [get_empty held, get_empty (x := { x with server := files }) (same.trans held)]
      · rw [get_some held empty, get_some (x := { x with server := files }) (same.trans held) empty]
        unfold ask
        dsimp only
        split_ifs <;> rfl

theorem put_client : (x.put answers name).client = x.client := by
  cases held : x.client name with
  | none => rw [put_none held]
  | some content =>
      rw [put_some held]
      dsimp only
      split_ifs <;> simp

theorem get_server : (x.get answers name).server = x.server := by
  cases held : x.server name with
  | none => rw [get_none held]
  | some content =>
      by_cases empty : content = []
      · rw [get_empty (empty ▸ held)]
      · rw [get_some held empty]
        dsimp only
        split_ifs <;> simp

theorem putAll_withClient (answers : Nat → BitVec 32) (files : Str → Option Str)
    (same : ∀ name ∈ names, files name = x.client name) :
    { x with client := files }.putAll answers names = { x.putAll answers names with client := files } := by
  induction names generalizing x with
  | nil => rfl
  | cons name rest ih =>
      have first : { x with client := files }.put answers name = _ := put_withClient files (same name (by simp))
      have later := ih (x := { x.put answers name with overwrite := 1 }) fun other member => by
        rw [put_client]
        exact same other (by simp [member])
      simp only [putAll, List.foldl_cons, first] at later ⊢
      exact later

theorem getAll_withServer (answers : Nat → BitVec 32) (files : Str → Option Str)
    (same : ∀ name ∈ names, files name = x.server name) :
    { x with server := files }.getAll answers names = { x.getAll answers names with server := files } := by
  induction names generalizing x with
  | nil => rfl
  | cons name rest ih =>
      have first : { x with server := files }.get answers name = _ := get_withServer files (same name (by simp))
      have later := ih (x := { x.get answers name with overwrite := 1 }) fun other member => by
        rw [get_server]
        exact same other (by simp [member])
      simp only [getAll, List.foldl_cons, first] at later ⊢
      exact later

theorem putAll_client : (x.putAll answers names).client = x.client := by
  induction names generalizing x with
  | nil => rfl
  | cons name rest ih => exact (ih (x := { x.put answers name with overwrite := 1 })).trans put_client

theorem getAll_server : (x.getAll answers names).server = x.server := by
  induction names generalizing x with
  | nil => rfl
  | cons name rest ih => exact (ih (x := { x.get answers name with overwrite := 1 })).trans get_server

end Frames

section Directions
variable {answers : Nat → BitVec 32} {x y : Copies} {command : Command} {commands : List Command}

theorem Does.client (done : Does answers command x y) (uploads : command.uploads = true) : y.client = x.client := by
  cases done with
  | put name => exact put_client
  | get name => cases uploads
  | mput listing => exact putAll_client
  | mget listing => cases uploads

theorem Does.server (done : Does answers command x y) (downloads : command.uploads = false) : y.server = x.server := by
  cases done with
  | put name => cases downloads
  | get name => exact get_server
  | mput listing => cases downloads
  | mget listing => exact getAll_server

theorem Session.client (done : Session answers commands x y)
    (uploads : ∀ command ∈ commands, command.uploads = true) : y.client = x.client := by
  induction done with
  | done => rfl
  | next first later ih =>
      exact (ih fun command member => uploads command (by simp [member])).trans (first.client (uploads _ (by simp)))

theorem Session.server (done : Session answers commands x y)
    (downloads : ∀ command ∈ commands, command.uploads = false) : y.server = x.server := by
  induction done with
  | done => rfl
  | next first later ih =>
      exact (ih fun command member => downloads command (by simp [member])).trans (first.server (downloads _ (by simp)))

end Directions

/-- Each file is one that some side had under its name at the start, and none has gone. What is got
is not empty. -/
structure From (start x : Copies) : Prop where
  client : ∀ name, x.client name = start.client name ∨
    ∃ content, x.client name = some content ∧ start.server name = some content ∧ content ≠ []
  server : ∀ name, x.server name = start.server name ∨
    ∃ content, x.server name = some content ∧ start.client name = some content

namespace From
variable {answers : Nat → BitVec 32} {start x y : Copies} {name : Str}

theorem refl (start : Copies) : From start start := ⟨fun _ => .inl rfl, fun _ => .inl rfl⟩

theorem of_eq (h : From start x) (client : y.client = x.client) (server : y.server = x.server) : From start y :=
  ⟨client ▸ h.client, server ▸ h.server⟩

theorem put (h : From start x) : From start (x.put answers name) := by
  cases held : x.client name with
  | none =>
      rw [put_none held]
      exact h
  | some content =>
      rw [put_some held]
      dsimp only
      split_ifs
      · refine ⟨by simpa using h.client, fun other => ?_⟩
        by_cases same : other = name
        · subst same
          simp only [Function.update_self]
          rcases h.client other with own | ⟨content', now, other_side⟩
          · exact .inr ⟨content, rfl, own.symm.trans held⟩
          · obtain rfl := Option.some.inj (now.symm.trans held)
            exact .inl other_side.1.symm
        · simpa only [Function.update_of_ne same, ask_server] using h.server other
      · exact h.of_eq (ask_client _ _) (ask_server _ _)

theorem get (h : From start x) : From start (x.get answers name) := by
  cases held : x.server name with
  | none =>
      rw [get_none held]
      exact h
  | some content =>
      by_cases empty : content = []
      · rw [get_empty (empty ▸ held)]
        exact h
      rw [get_some held empty]
      dsimp only
      split_ifs
      · refine ⟨fun other => ?_, by simpa using h.server⟩
        by_cases same : other = name
        · subst same
          simp only [Function.update_self]
          rcases h.server other with own | ⟨content', now, other_side⟩
          · exact .inr ⟨content, rfl, own.symm.trans held, empty⟩
          · obtain rfl := Option.some.inj (now.symm.trans held)
            exact .inl other_side.symm
        · simpa only [Function.update_of_ne same, ask_client] using h.client other
      · exact h.of_eq (ask_client _ _) (ask_server _ _)

theorem putAll (h : From start x) (names : List Str) : From start (x.putAll answers names) := by
  induction names generalizing x with
  | nil => exact h
  | cons name rest ih => exact ih (h.put.of_eq rfl rfl)

theorem getAll (h : From start x) (names : List Str) : From start (x.getAll answers names) := by
  induction names generalizing x with
  | nil => exact h
  | cons name rest ih => exact ih (h.get.of_eq rfl rfl)

theorem does (h : From start x) {command : Command} (done : Does answers command x y) : From start y := by
  cases done with
  | put name => exact h.put
  | get name => exact h.get
  | mput listing => exact h.putAll _
  | mget listing => exact h.getAll _

theorem session (h : From start x) {commands : List Command} (done : Session answers commands x y) : From start y := by
  induction done with
  | done => exact h
  | next first later ih => exact ih (h.does first)

end From
end Copies
end NetworkOs.Ftp
