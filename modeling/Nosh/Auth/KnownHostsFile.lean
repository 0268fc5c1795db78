import Mathlib.Data.List.Infix
import Nosh.Auth.KnownHosts
import Nosh.Lib.Words

/-!
# Recording a host

`record_known_host` appends a line to the file. A file that was edited by hand need not end with a
line feed, and then the new line is joined to what follows the last one: the new host is not found,
and a host that was pinned by the last line may be lost.

## Main Definitions

* `OpenSshFormat` — what is assumed about OpenSSH keys
* `HostToken` — a host that can be recorded
* `Joins` — what follows the last line feed of the file does no harm

## Main Results

* `lookupLine_eq` — a line of the file is its first word, the hosts, and what follows, the key.
* `recorded_iff` — **a recorded host is found, and the others are as before, exactly under
  `Joins`.**
* `joins_of_blank` — this is so for every file that ends with a line feed.
* `recordAll_found` — in a file that was only ever written here, every host is found.
-/

namespace Nosh.Auth

open Nosh.Lib Nosh.Lib.Words

variable {text line : List Char} {key : NoshPublicKey}

/-! ## Lines -/

/-- A line without the CR at its end. -/
def chomp (piece : List Char) : List Char :=
  if piece.getLast? = some '\r' then piece.dropLast else piece

/-- What follows the last line feed. -/
def unterminated (text : List Char) : List Char := text.rtakeWhile (· != '\n')

/-- The text up to its last line feed. -/
def terminated (text : List Char) : List Char := text.rdropWhile (· != '\n')

section

variable (text : List Char)

theorem terminated_append_unterminated : terminated text ++ unterminated text = text :=
  List.rdropWhile_append_rtakeWhile

theorem lf_not_mem_unterminated : '\n' ∉ unterminated text := by
  intro h
  have hne := List.mem_rtakeWhile_imp h
  exact absurd hne (by decide)

theorem terminated_cases : terminated text = [] ∨ ∃ front, terminated text = front ++ ['\n'] := by
  by_cases hne : terminated text = []
  · exact .inl hne
  · right
    have hlast : (terminated text).getLast hne = '\n' := by
      have hnot := List.rdropWhile_last_not (· != '\n') text hne
      rw [bne_iff_ne, ne_eq, not_not] at hnot
      exact hnot
    refine ⟨(terminated text).dropLast, ?_⟩
    rw [← hlast, List.dropLast_append_getLast]

/-- The pieces of a text that is continued after its last line feed. -/
theorem exists_pieces :
    ∃ pieces, ∀ more, '\n' ∉ more →
      (terminated text ++ more).splitOn '\n' = pieces ++ [more] := by
  rcases terminated_cases text with hnil | ⟨front, hfront⟩
  · refine ⟨[], fun more hmore => ?_⟩
    rw [hnil, List.nil_append, List.splitOn_eq_singleton hmore, List.nil_append]
  · refine ⟨front.splitOn '\n', fun more hmore => ?_⟩
    rw [hfront, List.append_assoc, List.singleton_append, List.splitOn_append_cons_self,
      List.splitOn_eq_singleton hmore]

/-! ## What a line says -/

theorem trim_eq_strip : trim text = strip isWhitespace text := rfl

end

/-- The hosts of a line, and its key. -/
def lineHosts (line : List Char) : List (List Char) := (firstWord isWhitespace line).splitOn ','

/-- The key part of a line. -/
def lineKey (line : List Char) : List Char := afterWord isWhitespace line

/-- The line is a comment. -/
def isComment (line : List Char) : Bool := (firstWord isWhitespace line).head? == some '#'

variable {ssh : SshKey} {host : List Char}

/-- A line is its first word, the hosts, and what follows, the key. -/
theorem lookupLine_eq (line : List Char) :
    lookupLine ssh host line =
      if isComment line = true ∨ lineKey line = [] then none
      else if host ∈ lineHosts line then ssh.fromOpensshLine (lineKey line) else none := by
  have hword : ∀ ch ∈ firstWord isWhitespace line, (!isWhitespace ch) = true := by
    intro ch hch
    rw [firstWord_not_sep line ch hch]
    rfl
  unfold lookupLine isComment lineHosts lineKey
  dsimp only
  rw [trim_eq_strip]
  rcases @strip_cases _ isWhitespace line with
    ⟨hafter, hstrip⟩ | ⟨s, rest, hs, hfirst, hafter, hrest, hstrip⟩
  · rw [hstrip, if_pos (Or.inr hafter), List.dropWhile_eq_nil_iff.mpr hword]
    exact ite_self _
  · have hnot : (!isWhitespace s) = false := by
      rw [hs]
      rfl
    have htake : (firstWord isWhitespace line ++ s :: rest).takeWhile (!isWhitespace ·) =
        firstWord isWhitespace line := by
      rw [List.takeWhile_append_of_pos hword, List.takeWhile_cons_of_neg (by simp [hnot]),
        List.append_nil]
    have hdrop : (firstWord isWhitespace line ++ s :: rest).dropWhile (!isWhitespace ·) =
        s :: rest := by
      rw [List.dropWhile_append_of_pos hword, List.dropWhile_cons_of_neg (by simp [hnot])]
    have hhead : (firstWord isWhitespace line ++ s :: rest).head? =
        (firstWord isWhitespace line).head? := List.head?_append_of_ne_nil _ hfirst
    rw [hstrip, hdrop, htake, hhead, ← hrest]
    rw [← hrest] at hafter
    by_cases hcomment : (firstWord isWhitespace line).head? = some '#'
    · rw [if_pos (Or.inr hcomment), if_pos (Or.inl (beq_iff_eq.mpr hcomment))]
    · rw [if_neg, if_neg]
      · refine if_congr ?_ rfl rfl
        simp
      · rintro (h | h)
        · exact hcomment (beq_iff_eq.mp h)
        · exact hafter h
      · rintro (h | h)
        · exact List.append_ne_nil_of_left_ne_nil hfirst _ h
        · exact hcomment h

theorem lookupLine_chomp (piece : List Char) :
    lookupLine ssh host (chomp piece) = lookupLine ssh host piece := by
  have htrim : trim (chomp piece) = trim piece := by
    unfold chomp
    split
    · rename_i hlast
      have hsplit := List.dropLast_append_getLast? '\r' hlast
      rw [trim_eq_strip, trim_eq_strip, ← hsplit, List.dropLast_concat]
      exact (strip_append_of_forall _ (List.forall_mem_singleton.mpr rfl)).symm
    · rfl
  unfold lookupLine
  rw [htrim]

/-- The key that a text gives the host. -/
def pin (ssh : SshKey) (text host : List Char) : Option NoshPublicKey :=
  (lines text).findSome? (lookupLine ssh host)

theorem findSome?_map_chomp (pieces : List (List Char)) :
    (pieces.map chomp).findSome? (lookupLine ssh host) =
      pieces.findSome? (lookupLine ssh host) := by
  rw [List.findSome?_map]
  congr 1
  funext piece
  exact lookupLine_chomp piece

theorem lookupLine_nil : lookupLine ssh host [] = none := rfl

theorem pin_of_splitOn {last : List Char} {pieces : List (List Char)}
    (h : text.splitOn '\n' = pieces ++ [last]) (ssh : SshKey) (host : List Char) :
    pin ssh text host =
      (pieces.findSome? (lookupLine ssh host)).or (lookupLine ssh host last) := by
  have hlines : lines text =
      (if some last = some [] then pieces else pieces ++ [last]).map chomp := by
    unfold lines
    dsimp only
    rw [h, List.getLast?_concat, List.dropLast_concat]
    rfl
  rw [pin, hlines, findSome?_map_chomp]
  by_cases hlast : last = []
  · rw [hlast, if_pos rfl, lookupLine_nil, Option.or_none]
  · rw [if_neg fun hnil => hlast (Option.some.inj hnil), List.findSome?_append]
    simp

section Appended

variable (ssh : SshKey) (text host : List Char)

/-- The last line counts, whether or not it is terminated. -/
theorem pin_eq :
    pin ssh text host =
      (pin ssh (terminated text) host).or (lookupLine ssh host (unterminated text)) := by
  obtain ⟨pieces, hpieces⟩ := exists_pieces text
  have htext := hpieces _ (lf_not_mem_unterminated text)
  have hterminated := hpieces [] List.not_mem_nil
  rw [terminated_append_unterminated] at htext
  rw [List.append_nil] at hterminated
  rw [pin_of_splitOn htext, pin_of_splitOn hterminated, lookupLine_nil, Option.or_none]

/-- A line that is appended is joined to what follows the last line feed. -/
theorem pin_append {more : List Char} (hmore : '\n' ∉ more) :
    pin ssh (text ++ more ++ ['\n']) host =
      (pin ssh (terminated text) host).or (lookupLine ssh host (unterminated text ++ more)) := by
  obtain ⟨pieces, hpieces⟩ := exists_pieces text
  have hterminated := hpieces [] List.not_mem_nil
  have hjoined := hpieces (unterminated text ++ more) fun h =>
    (List.mem_append.mp h).elim (lf_not_mem_unterminated text) hmore
  rw [← List.append_assoc, terminated_append_unterminated] at hjoined
  rw [List.append_nil] at hterminated
  have happended : (text ++ more ++ ['\n']).splitOn '\n' =
      (pieces ++ [unterminated text ++ more]) ++ [[]] := by
    rw [List.splitOn_append_cons_self, hjoined]
    rfl
  rw [pin_of_splitOn happended, pin_of_splitOn hterminated, lookupLine_nil, Option.or_none,
    Option.or_none, List.findSome?_append]
  simp

end Appended

/-! ## Keys and hosts -/

/-- The key type at the beginning of a key line. -/
def algorithm : List Char := "ssh-ed25519".toList

/-- A text that stands on a line, without white space around it. -/
structure OneLine (text : List Char) : Prop where
  trimmed : trim text = text
  one : '\n' ∉ text

/-- What is assumed about OpenSSH keys: the line of a key is its type and its data, and a text is
read as a key exactly if it is the line of the key, alone or with a comment behind it. -/
structure OpenSshFormat (ssh : SshKey) : Prop where
  written : ∀ {key line}, ssh.toOpensshLine key = some line →
    ∃ data, line = algorithm ++ ' ' :: data ∧ data ≠ algorithm ∧ IsWord isWhitespace data
  read_iff : ∀ {key line text}, ssh.toOpensshLine key = some line → OneLine text →
    (ssh.fromOpensshLine text = some key ↔ text = line ∨ line ++ [' '] <+: text)

/-- A host that can be recorded: not empty, without white space and commas, and not beginning with
the sign of a comment. -/
structure HostToken (host : List Char) : Prop where
  word : IsWord isWhitespace host
  no_comma : ',' ∉ host
  no_comment : host.head? ≠ some '#'

instance (host : List Char) : Decidable (HostToken host) :=
  decidable_of_iff (IsWord isWhitespace host ∧ ',' ∉ host ∧ host.head? ≠ some '#')
    ⟨fun h => ⟨h.1, h.2.1, h.2.2⟩, fun h => ⟨h.word, h.no_comma, h.no_comment⟩⟩

/-- The text of the file; there is none if the bytes are not UTF-8. -/
def fileText : KnownHosts → Option (List Char)
  | none => some []
  | some bytes => (Postcard.ofUtf8Bytes bytes).map String.toList

theorem lookupKnownHost_eq (ssh : SshKey) (file : KnownHosts) (host : List Char) :
    lookupKnownHost ssh true file host = (fileText file).map fun text => pin ssh text host := by
  cases file with
  | none => rfl
  | some bytes =>
      unfold lookupKnownHost fileText
      rw [if_neg (by decide), Option.map_map]
      rfl

/-- What a record that succeeds leaves. -/
theorem recordKnownHost_eq {io : AppendIo} {file after : KnownHosts}
    (h : recordKnownHost ssh io host key file = (true, after)) :
    ∃ openssh, ssh.toOpensshLine key = some openssh ∧
      after = some (file.getD [] ++ knownHostLine host openssh) := by
  unfold recordKnownHost at h
  cases hline : ssh.toOpensshLine key with
  | none =>
      rw [hline] at h
      cases h
  | some openssh =>
      rw [hline] at h
      cases io with
      | synced => exact ⟨openssh, rfl, (Prod.mk.inj h).2.symm⟩
      | _ => cases h

theorem fileText_append {file : KnownHosts} (h : fileText file = some text) (more : List Char) :
    fileText (some (file.getD [] ++ Utf8.encode more)) = some (text ++ more) := by
  refine Utf8.decoded_iff.mpr ?_
  rw [Utf8.encode_append]
  congr 1
  cases file with
  | none =>
      cases h
      rfl
  | some bytes => exact Utf8.decoded_iff.mp h

/-! ## The joined line -/

theorem lineKey_oneLine (h : '\n' ∉ line) : OneLine (lineKey line) :=
  ⟨strip_strip _, fun hmem => h (mem_of_mem_afterWord hmem)⟩

/-- Two hosts of a line have the same key. -/
theorem lookupLine_congr {other : List Char} (hhost : host ∈ lineHosts line)
    (hother : other ∈ lineHosts line) : lookupLine ssh host line = lookupLine ssh other line := by
  rw [lookupLine_eq, lookupLine_eq, if_pos hhost, if_pos hother]

theorem lookupLine_of_not_mem (h : host ∉ lineHosts line) : lookupLine ssh host line = none := by
  rw [lookupLine_eq, if_neg h]
  exact ite_self _

theorem lookupLine_of_no_key (h : lineKey line = []) : lookupLine ssh host line = none := by
  rw [lookupLine_eq, if_pos (Or.inr h)]

theorem lookupLine_eq_some_iff :
    lookupLine ssh host line = some key ↔
      isComment line = false ∧ lineKey line ≠ [] ∧ host ∈ lineHosts line ∧
        ssh.fromOpensshLine (lineKey line) = some key := by
  rw [lookupLine_eq]
  constructor
  · intro h
    split at h
    · cases h
    · rename_i hline
      rw [not_or] at hline
      split at h
      · exact ⟨Bool.eq_false_iff.mpr hline.1, hline.2, ‹_›, h⟩
      · cases h
  · rintro ⟨hcomment, hkey, hmem, hread⟩
    rw [if_neg, if_pos hmem]
    · exact hread
    · rw [hcomment]
      exact fun h => h.elim Bool.false_ne_true hkey

/-- The line of a key can be found in front of itself only as a whole. -/
theorem eq_or_starts {kind data front : List Char} (hline : line = kind ++ ' ' :: data)
    (hkind : ' ' ∉ kind) (hdata : ' ' ∉ data) (hne : data ≠ kind)
    (h : line ++ [' '] <+: front ++ ' ' :: line) : front = line ∨ line ++ [' '] <+: front := by
  have hfront : front ++ [' '] <+: front ++ ' ' :: line := ⟨line, by rw [List.append_assoc]; rfl⟩
  rcases lt_trichotomy front.length line.length with hlt | heq | hgt
  · -- the front would be the type of the key, and its data the type again
    have hstart : front ++ [' '] <+: line :=
      List.prefix_of_prefix_length_le hfront ((List.prefix_append _ _).trans h)
        (by simpa [Nat.succ_le_iff] using hlt)
    obtain ⟨rest, hrest⟩ := hstart
    have hkinds : kind = front := by
      rw [hline, List.append_assoc, List.singleton_append, eq_comm,
        List.append_cons_inj_of_notMem hkind hdata] at hrest
      exact hrest.1
    obtain ⟨tail, htail⟩ := h
    have hagain : kind ++ ' ' :: data = data ++ ' ' :: tail := by
      rw [← hkinds, hline, List.append_assoc, List.append_assoc] at htail
      have hcancel := List.append_cancel_left htail
      rw [List.cons_append, List.cons.injEq] at hcancel
      rw [← hcancel.2]
      rfl
    rw [List.append_cons_inj_of_notMem hkind hdata] at hagain
    exact (hne hagain.1.symm).elim
  · left
    have hsame : front ++ [' '] = line ++ [' '] :=
      (List.prefix_of_prefix_length_le hfront h (by simp [heq])).eq_of_length (by simp [heq])
    exact List.append_cancel_right hsame
  · right
    exact List.prefix_of_prefix_length_le h (List.prefix_append _ _)
      (by simpa [Nat.succ_le_iff] using hgt)

theorem starts_of_not_mem {ch : Char} {start front word : List Char} (hword : ch ∉ word)
    (h : start ++ [ch] <+: front ++ word) : start ++ [ch] <+: front := by
  rcases List.prefix_or_prefix_of_prefix h (List.prefix_append front word) with hstart | hfront
  · exact hstart
  · rcases List.prefix_concat_iff.mp hfront with heq | ⟨rest, hrest⟩
    · exact heq ▸ List.prefix_rfl
    · rw [← hrest, List.append_assoc, List.prefix_append_right_inj] at h
      exact (hword (h.subset (List.mem_append_right _ List.mem_cons_self))).elim

section Joined

variable {openssh : List Char}

theorem OpenSshFormat.not_mem (hssh : OpenSshFormat ssh)
    (hopenssh : ssh.toOpensshLine key = some openssh) : '\n' ∉ openssh := by
  obtain ⟨data, hline, -, hdata⟩ := hssh.written hopenssh
  rw [hline, List.mem_append, List.mem_cons]
  rintro (h | h | h)
  · exact absurd h (by decide)
  · exact absurd h (by decide)
  · exact hdata.not_mem rfl h

theorem OpenSshFormat.stripped (hssh : OpenSshFormat ssh)
    (hopenssh : ssh.toOpensshLine key = some openssh) : Stripped isWhitespace openssh := by
  obtain ⟨data, hline, -, hdata⟩ := hssh.written hopenssh
  have hdrop : openssh.dropWhile isWhitespace = openssh := by
    rw [hline]
    rfl
  have hend : openssh.rdropWhile isWhitespace = openssh := by
    rw [hline, List.append_cons]
    exact rdropWhile_append_of_last _ hdata.1 hdata.rdropWhile_eq
  refine ⟨?_, ?_⟩
  · rw [hline]
    exact List.cons_ne_nil _ _
  · rw [strip, hdrop, hend]

/-- What is read behind some text and a space. -/
theorem OpenSshFormat.read_behind_iff (hssh : OpenSshFormat ssh)
    (hopenssh : ssh.toOpensshLine key = some openssh) {front : List Char}
    (hone : OneLine (front ++ ' ' :: openssh)) :
    ssh.fromOpensshLine (front ++ ' ' :: openssh) = some key ↔
      front = openssh ∨ openssh ++ [' '] <+: front := by
  obtain ⟨data, hline, hne, hdata⟩ := hssh.written hopenssh
  rw [hssh.read_iff hopenssh hone]
  constructor
  · rintro (h | h)
    · have hlength := congrArg List.length h
      rw [List.length_append, List.length_cons] at hlength
      omega
    · exact eq_or_starts hline (by decide) (hdata.not_mem rfl) hne h
  · rintro (rfl | h)
    · exact .inr ⟨front, by rw [List.append_assoc]; rfl⟩
    · exact .inr (h.trans (List.prefix_append _ _))

variable (hhost : HostToken host) (last : List Char)

include hhost

theorem firstWord_joined :
    firstWord isWhitespace (last ++ host ++ ' ' :: openssh) =
      firstWord isWhitespace (last ++ host) :=
  firstWord_continued (List.append_ne_nil_of_right_ne_nil _ hhost.word.1)
    (rdropWhile_append_of_last last hhost.word.1 hhost.word.rdropWhile_eq) rfl _

theorem lineKey_joined (hstripped : Stripped isWhitespace openssh) :
    lineKey (last ++ host ++ ' ' :: openssh) =
      if lineKey (last ++ host) = [] then openssh else lineKey (last ++ host) ++ ' ' :: openssh :=
  afterWord_continued (List.append_ne_nil_of_right_ne_nil _ hhost.word.1)
    (rdropWhile_append_of_last last hhost.word.1 hhost.word.rdropWhile_eq) rfl hstripped

variable (hssh : OpenSshFormat ssh) (hopenssh : ssh.toOpensshLine key = some openssh)
  {last} (hlast : '\n' ∉ last)

include hssh hopenssh hlast

/-- The hosts to which the joined line gives the recorded key. -/
theorem lookupLine_joined_iff {other : List Char} :
    lookupLine ssh other (last ++ host ++ ' ' :: openssh) = some key ↔
      isComment (last ++ host) = false ∧ other ∈ lineHosts (last ++ host) ∧
        (lineKey (last ++ host) = [] ∨ lineKey (last ++ host) = openssh ∨
          openssh ++ [' '] <+: lineKey (last ++ host)) := by
  have hstripped := hssh.stripped hopenssh
  have hcomment : isComment (last ++ host ++ ' ' :: openssh) = isComment (last ++ host) := by
    rw [isComment, firstWord_joined hhost last, isComment]
  have hhosts : lineHosts (last ++ host ++ ' ' :: openssh) = lineHosts (last ++ host) := by
    rw [lineHosts, firstWord_joined hhost last, lineHosts]
  have hone : OneLine (lineKey (last ++ host ++ ' ' :: openssh)) := by
    refine lineKey_oneLine fun h => ?_
    rw [List.mem_append, List.mem_append, List.mem_cons] at h
    rcases h with (h | h) | h | h
    · exact hlast h
    · exact hhost.word.not_mem rfl h
    · exact absurd h (by decide)
    · exact hssh.not_mem hopenssh h
  rw [lookupLine_eq_some_iff, hcomment, hhosts]
  rw [lineKey_joined hhost last hstripped] at hone ⊢
  by_cases hnil : lineKey (last ++ host) = []
  · rw [if_pos hnil] at hone ⊢
    have hread := (hssh.read_iff hopenssh hone).mpr (.inl rfl)
    exact ⟨fun ⟨hc, _, hmem, _⟩ => ⟨hc, hmem, .inl hnil⟩,
      fun ⟨hc, hmem, _⟩ => ⟨hc, hstripped.1, hmem, hread⟩⟩
  · rw [if_neg hnil] at hone ⊢
    rw [hssh.read_behind_iff hopenssh hone, or_iff_right hnil]
    exact ⟨fun ⟨hc, _, hmem, hread⟩ => ⟨hc, hmem, hread⟩,
      fun ⟨hc, hmem, hread⟩ => ⟨hc, List.append_ne_nil_of_left_ne_nil hnil _, hmem, hread⟩⟩

/-- A last line that has the key of the host with a comment behind it was already found. -/
theorem not_starts_of_absent (habsent : lookupLine ssh host last = none)
    (hcomment : isComment (last ++ host) = false) (hmem : host ∈ lineHosts (last ++ host)) :
    ¬ openssh ++ [' '] <+: lineKey (last ++ host) := by
  intro hstart
  rcases afterWord_completed hhost.word last with ⟨hnil, -⟩ | ⟨-, hfirst, front, hkey, hbefore⟩
  · rw [lineKey, hnil, List.prefix_nil] at hstart
    exact List.append_ne_nil_of_right_ne_nil _ (List.cons_ne_nil _ _) hstart
  · rw [lineKey, hkey] at hstart
    obtain ⟨rest, hrest⟩ := starts_of_not_mem (hhost.word.not_mem rfl) hstart
    have hbehind : lineKey last = openssh ∨ openssh ++ [' '] <+: lineKey last := by
      rw [lineKey, hbefore, ← hrest, List.append_assoc]
      exact (rdropWhile_append_cons openssh ' ' rest).imp_left fun h =>
        h.trans (hssh.stripped hopenssh).rdropWhile_eq
    have hread := (hssh.read_iff hopenssh (lineKey_oneLine hlast)).mpr hbehind
    have hne : lineKey last ≠ [] := by
      rintro hnil
      rw [hnil, List.prefix_nil] at hbehind
      exact hbehind.elim (fun h => (hssh.stripped hopenssh).1 h.symm)
        (List.append_ne_nil_of_right_ne_nil _ (List.cons_ne_nil _ _))
    have hfound : lookupLine ssh host last = some key := by
      refine lookupLine_eq_some_iff.mpr ⟨?_, hne, ?_, hread⟩
      · rw [isComment, ← hfirst]
        exact hcomment
      · rw [lineHosts, ← hfirst]
        exact hmem
    rw [habsent] at hfound
    cases hfound

end Joined

/-! ## A host is recorded -/

/-- What follows the last line feed of the file does no harm to the host that is recorded behind it,
and takes none from it: with the host it is a list of hosts, without a key or with the recorded
key, and the other hosts of the list have their keys further up. -/
structure Joins (ssh : SshKey) (text host openssh : List Char) : Prop where
  not_comment : isComment (unterminated text ++ host) = false
  key_eq : lineKey (unterminated text ++ host) = [] ∨ lineKey (unterminated text ++ host) = openssh
  host_mem : host ∈ lineHosts (unterminated text ++ host)
  others : ∀ other ∈ lineHosts (unterminated text ++ host), other ≠ host →
    pin ssh (terminated text) other ≠ none

section Recorded

variable {openssh : List Char}

/-- A last line in which the host stands without being found gives no key to anyone. -/
theorem lookupLine_last {last other : List Char} (hhost : HostToken host)
    (habsent : lookupLine ssh host last = none) (hmem : host ∈ lineHosts (last ++ host)) :
    lookupLine ssh other last = none := by
  rcases afterWord_completed hhost.word last with ⟨-, hnil⟩ | ⟨-, hfirst, -⟩
  · exact lookupLine_of_no_key hnil
  · have hhosts : lineHosts (last ++ host) = lineHosts last := by
      rw [lineHosts, hfirst, lineHosts]
    rw [hhosts] at hmem
    by_cases hother : other ∈ lineHosts last
    · rw [lookupLine_congr hother hmem, habsent]
    · exact lookupLine_of_not_mem hother

theorem lookupLine_joined_of_not_mem {last other : List Char} (hhost : HostToken host)
    (hother : other ∉ lineHosts (last ++ host)) :
    lookupLine ssh other (last ++ host ++ ' ' :: openssh) = none := by
  refine lookupLine_of_not_mem ?_
  rw [lineHosts, firstWord_joined hhost last]
  exact hother

/-- The keys after a record that succeeds. -/
theorem pin_recorded (hhost : HostToken host) (hssh : OpenSshFormat ssh)
    (hopenssh : ssh.toOpensshLine key = some openssh) (text other : List Char) :
    pin ssh (text ++ (host ++ [' '] ++ openssh ++ ['\n'])) other =
      (pin ssh (terminated text) other).or
        (lookupLine ssh other (unterminated text ++ host ++ ' ' :: openssh)) := by
  have hmore : '\n' ∉ host ++ [' '] ++ openssh := by
    rw [List.mem_append, List.mem_append, List.mem_singleton]
    rintro ((h | h) | h)
    · exact hhost.word.not_mem rfl h
    · exact absurd h (by decide)
    · exact hssh.not_mem hopenssh h
  rw [← List.append_assoc text, pin_append ssh text other hmore]
  simp only [List.append_assoc, List.singleton_append]

theorem pin_recorded_iff (hssh : OpenSshFormat ssh) (hhost : HostToken host)
    (hopenssh : ssh.toOpensshLine key = some openssh) (habsent : pin ssh text host = none) :
    (pin ssh (text ++ (host ++ [' '] ++ openssh ++ ['\n'])) host = some key ∧
      ∀ other, other ≠ host → pin ssh (text ++ (host ++ [' '] ++ openssh ++ ['\n'])) other =
        pin ssh text other) ↔
      Joins ssh text host openssh := by
  have hlf := lf_not_mem_unterminated text
  rw [pin_eq, Option.or_eq_none_iff] at habsent
  obtain ⟨hearlier, hlast⟩ := habsent
  simp only [pin_recorded hhost hssh hopenssh, pin_eq ssh text]
  rw [hearlier, Option.none_or, lookupLine_joined_iff hhost hssh hopenssh hlf]
  constructor
  · rintro ⟨⟨hcomment, hmem, hkey⟩, hothers⟩
    have hstart := not_starts_of_absent hhost hssh hopenssh hlf hlast hcomment hmem
    refine ⟨hcomment, hkey.imp_right fun h => h.resolve_right hstart, hmem, ?_⟩
    intro other hother hne hnone
    have hsame := hothers other hne
    rw [hnone, Option.none_or, Option.none_or, lookupLine_last hhost hlast hmem,
      (lookupLine_joined_iff hhost hssh hopenssh hlf).mpr ⟨hcomment, hother, hkey⟩] at hsame
    cases hsame
  · rintro ⟨hcomment, hkey, hmem, hothers⟩
    refine ⟨⟨hcomment, hmem, hkey.imp_right .inl⟩, fun other hne => ?_⟩
    by_cases hother : other ∈ lineHosts (unterminated text ++ host)
    · obtain ⟨pinned, hpinned⟩ := Option.ne_none_iff_exists'.mp (hothers other hother hne)
      rw [hpinned, Option.some_or, Option.some_or]
    · rw [lookupLine_joined_of_not_mem hhost hother, lookupLine_last hhost hlast hmem]

end Recorded

/-- **After a host was recorded, it is found, and every other host is as before, exactly if what
follows the last line feed of the file joins with the host.** -/
theorem recorded_iff {ssh : SshKey} (hssh : OpenSshFormat ssh) {host : List Char}
    (hhost : HostToken host) {file : KnownHosts} {text : List Char}
    (htext : fileText file = some text) (habsent : lookupKnownHost ssh true file host = some none)
    {io : AppendIo} {key : NoshPublicKey} {after : KnownHosts}
    (hrecord : recordKnownHost ssh io host key file = (true, after)) {openssh : List Char}
    (hopenssh : ssh.toOpensshLine key = some openssh) :
    (lookupKnownHost ssh true after host = some (some key) ∧
      ∀ other, other ≠ host →
        lookupKnownHost ssh true after other = lookupKnownHost ssh true file other) ↔
      Joins ssh text host openssh := by
  obtain ⟨line, hline, hafter⟩ := recordKnownHost_eq hrecord
  rw [hopenssh] at hline
  cases hline
  have hafterText := fileText_append htext (host ++ [' '] ++ openssh ++ ['\n'])
  rw [lookupKnownHost_eq, htext, Option.map_some, Option.some.injEq] at habsent
  rw [← pin_recorded_iff hssh hhost hopenssh habsent, hafter, knownHostLine]
  simp only [lookupKnownHost_eq, hafterText, htext, Option.map_some, Option.some.injEq]

/-- The text is the line of a key with this data, alone or with a comment behind it. -/
def ReadsAs (data text : List Char) : Prop :=
  text = algorithm ++ ' ' :: data ∨ algorithm ++ ' ' :: data ++ [' '] <+: text

instance (data text : List Char) : Decidable (ReadsAs data text) :=
  inferInstanceAs (Decidable (_ ∨ _))

/-- A format with the keys of a table and their data. -/
def keyTable (keys : List (NoshPublicKey × List Char)) : SshKey where
  fromOpensshLine text := (keys.find? fun entry => ReadsAs entry.2 text).map Prod.fst
  toOpensshLine key := (keys.find? fun entry => entry.1 = key).map fun entry =>
    algorithm ++ ' ' :: entry.2

/-- A line has the data of one key only. -/
theorem ReadsAs.data_eq {data data' : List Char} (hdata : IsWord isWhitespace data)
    (hdata' : IsWord isWhitespace data') (h : ReadsAs data text) (h' : ReadsAs data' text) :
    data = data' := by
  -- the data are the word behind the algorithm
  have hword : ∀ {data : List Char}, IsWord isWhitespace data → ReadsAs data text →
      (text.drop 12).takeWhile (!isWhitespace ·) = data := by
    intro data hdata h
    have hall : ∀ ch ∈ data, (!isWhitespace ch) = true := fun ch hch => by
      rw [hdata.2 ch hch, Bool.not_false]
    obtain rfl | ⟨rest, rfl⟩ := h
    · exact List.takeWhile_eq_self_iff.mpr hall
    · have hdrop : (algorithm ++ ' ' :: data ++ [' '] ++ rest).drop 12 = data ++ ' ' :: rest := by
        rw [List.append_assoc, List.append_assoc]
        rfl
      rw [hdrop, List.takeWhile_append_of_pos hall, List.takeWhile_cons_of_neg (by decide),
        List.append_nil]
  rw [← hword hdata h, hword hdata' h']

theorem keyTable_format {keys : List (NoshPublicKey × List Char)}
    (hdata : ∀ entry ∈ keys, entry.2 ≠ algorithm ∧ IsWord isWhitespace entry.2)
    (hinj : ∀ entry ∈ keys, ∀ other ∈ keys, entry.1 = other.1 ↔ entry.2 = other.2) :
    OpenSshFormat (keyTable keys) := by
  have hentry : ∀ {key line}, (keyTable keys).toOpensshLine key = some line →
      ∃ data, (key, data) ∈ keys ∧ line = algorithm ++ ' ' :: data := by
    intro key line h
    obtain ⟨⟨key', data⟩, hfind, rfl⟩ := Option.map_eq_some_iff.mp h
    obtain rfl : key' = key := by simpa using List.find?_some hfind
    exact ⟨data, List.mem_of_find?_eq_some hfind, rfl⟩
  constructor
  · intro key line h
    obtain ⟨data, hmem, rfl⟩ := hentry h
    exact ⟨data, rfl, hdata _ hmem⟩
  · intro key line text h _
    obtain ⟨data, hmem, rfl⟩ := hentry h
    constructor
    · intro hread
      obtain ⟨⟨key', data'⟩, hfind, rfl⟩ := Option.map_eq_some_iff.mp hread
      obtain rfl := (hinj _ (List.mem_of_find?_eq_some hfind) _ hmem).mp rfl
      have hreads := List.find?_some hfind
      exact of_decide_eq_true hreads
    · intro hreads
      have hsome : (keys.find? fun entry => ReadsAs entry.2 text).isSome :=
        List.find?_isSome.mpr ⟨_, hmem, decide_eq_true hreads⟩
      obtain ⟨⟨key', data'⟩, hfind⟩ := Option.isSome_iff_exists.mp hsome
      have hmem' := List.mem_of_find?_eq_some hfind
      have hreads' := List.find?_some hfind
      have hsame := (of_decide_eq_true hreads').data_eq (hdata _ hmem').2 (hdata _ hmem).2 hreads
      refine Option.map_eq_some_iff.mpr ⟨_, hfind, ?_⟩
      exact (hinj _ hmem' _ hmem).mpr hsame

theorem fileText_encode (text : List Char) : fileText (some (Utf8.encode text)) = some text :=
  Utf8.decoded_iff.mpr rfl

theorem lookupKnownHost_encode (ssh : SshKey) (text host : List Char) :
    lookupKnownHost ssh true (some (Utf8.encode text)) host = some (pin ssh text host) := by
  rw [lookupKnownHost_eq, fileText_encode, Option.map_some]

/-- The key of zeros. -/
def zeroKey : NoshPublicKey := ⟨Proto.ByteArr.replicate 32 0⟩

/-- The key of ones. -/
def onesKey : NoshPublicKey := ⟨Proto.ByteArr.replicate 32 1⟩

/-- The OpenSSH data of `zeroKey`. -/
def zeroData : List Char :=
  "AAAAC3NzaC1lZDI1NTE5AAAAIAAAAAAAAAAAAAAAAAAAAAAAAAAAAAAAAAAAAAAAAAAA".toList

/-- The OpenSSH data of `onesKey`. -/
def onesData : List Char :=
  "AAAAC3NzaC1lZDI1NTE5AAAAIAEBAQEBAQEBAQEBAQEBAQEBAQEBAQEBAQEBAQEBAQEB".toList

/-- The lines of the two keys. -/
def twoKeys : SshKey := keyTable [(zeroKey, zeroData), (onesKey, onesData)]

theorem twoKeys_format : OpenSshFormat twoKeys :=
  keyTable_format (by decide +kernel) (by decide +kernel)

/-- The line of a host with `zeroKey`. -/
def zeroLine (host : List Char) : List Char := host ++ " ssh-ed25519 ".toList ++ zeroData

/-- A file whose last line is still to be completed: the list of hosts `a,`. -/
def openList : List Char := zeroLine ['a'] ++ "\na,".toList

theorem openList_joins : Joins twoKeys openList ['b'] (algorithm ++ ' ' :: zeroData) where
  not_comment := by decide +kernel
  key_eq := .inl (by decide +kernel)
  host_mem := by decide +kernel
  others := by
    have hhosts : lineHosts (unterminated openList ++ ['b']) = [['a'], ['b']] := by
      decide +kernel
    intro other hother hne
    rw [hhosts, List.mem_pair] at hother
    rw [hother.resolve_right hne]
    decide +kernel

/-- `b` completes the list, and both hosts are found. -/
theorem recorded_behind_open_list :
    lookupKnownHost twoKeys true (some (Utf8.encode openList)) ['b'] = some none ∧
      lookupKnownHost twoKeys true
        (recordKnownHost twoKeys .synced ['b'] zeroKey (some (Utf8.encode openList))).2 ['b'] =
          some (some zeroKey) ∧
      ∀ other, other ≠ ['b'] →
        lookupKnownHost twoKeys true
          (recordKnownHost twoKeys .synced ['b'] zeroKey (some (Utf8.encode openList))).2 other =
            lookupKnownHost twoKeys true (some (Utf8.encode openList)) other := by
  have habsent : lookupKnownHost twoKeys true (some (Utf8.encode openList)) ['b'] = some none := by
    rw [lookupKnownHost_encode]
    decide +kernel
  have hhost : HostToken ['b'] := by decide
  have hopenssh : twoKeys.toOpensshLine zeroKey = some (algorithm ++ ' ' :: zeroData) := by
    decide +kernel
  have hrecord : recordKnownHost twoKeys .synced ['b'] zeroKey (some (Utf8.encode openList)) =
      (true, (recordKnownHost twoKeys .synced ['b'] zeroKey (some (Utf8.encode openList))).2) := by
    rw [recordKnownHost, hopenssh]
  exact ⟨habsent, (recorded_iff twoKeys_format hhost (fileText_encode openList) habsent hrecord
    hopenssh).mpr openList_joins⟩

/-- A file without a line feed at its end: the recorded host is not found, and the host that was
pinned is lost. -/
theorem unterminated_line_lost :
    let file : KnownHosts := some (Utf8.encode (zeroLine ['a']))
    let after := (recordKnownHost twoKeys .synced ['b'] zeroKey file).2
    recordKnownHost twoKeys .synced ['b'] zeroKey file = (true, after) ∧
      lookupKnownHost twoKeys true file ['a'] = some (some zeroKey) ∧
      lookupKnownHost twoKeys true file ['b'] = some none ∧
      lookupKnownHost twoKeys true after ['a'] = some none ∧
      lookupKnownHost twoKeys true after ['b'] = some none := by
  have hrecord : recordKnownHost twoKeys .synced ['b'] zeroKey
      (some (Utf8.encode (zeroLine ['a']))) =
        (true, some (Utf8.encode (zeroLine ['a'] ++ zeroLine ['b'] ++ ['\n']))) := by
    decide +kernel
  dsimp only
  rw [hrecord]
  simp only [lookupKnownHost_encode]
  decide +kernel

/-! ## A file that is only written here -/

theorem HostToken.lineHosts_eq {last : List Char} (hhost : HostToken host)
    (hblank : ∀ ch ∈ last, isWhitespace ch = true) : lineHosts (last ++ host) = [host] := by
  rw [lineHosts, hhost.word.firstWord_eq hblank, List.splitOn_eq_singleton hhost.no_comma]

/-- Behind white space a host is recorded without harm. -/
theorem joins_of_blank (hblank : ∀ ch ∈ unterminated text, isWhitespace ch = true)
    (hhost : HostToken host) (ssh : SshKey) (openssh : List Char) :
    Joins ssh text host openssh := by
  have hhosts := hhost.lineHosts_eq hblank
  constructor
  · rw [isComment, hhost.word.firstWord_eq hblank, beq_eq_false_iff_ne]
    exact hhost.no_comment
  · exact .inl (hhost.word.afterWord_eq hblank)
  · rw [hhosts]
    exact List.mem_singleton_self host
  · intro other hother hne
    rw [hhosts, List.mem_singleton] at hother
    exact (hne hother).elim

/-- A host that is recorded behind white space. -/
theorem pin_recorded_of_blank (hblank : ∀ ch ∈ unterminated text, isWhitespace ch = true)
    (hssh : OpenSshFormat ssh) (hhost : HostToken host) {openssh : List Char}
    (hopenssh : ssh.toOpensshLine key = some openssh) (other : List Char) :
    pin ssh (text ++ (host ++ [' '] ++ openssh ++ ['\n'])) other =
      (pin ssh text other).or (if host == other then some key else none) := by
  have hjoins := joins_of_blank hblank hhost ssh openssh
  have hlf := lf_not_mem_unterminated text
  have hlast : lookupLine ssh other (unterminated text) = none :=
    lookupLine_of_no_key (afterWord_eq_nil hblank)
  have hjoined : lookupLine ssh other (unterminated text ++ host ++ ' ' :: openssh) =
      if host == other then some key else none := by
    by_cases hother : host = other
    · subst hother
      rw [if_pos (beq_self_eq_true host), lookupLine_joined_iff hhost hssh hopenssh hlf]
      exact ⟨hjoins.not_comment, hjoins.host_mem, hjoins.key_eq.imp_right .inl⟩
    · rw [if_neg fun h => hother (beq_iff_eq.mp h), lookupLine_joined_of_not_mem hhost]
      rw [hhost.lineHosts_eq hblank, List.mem_singleton]
      exact fun h => hother h.symm
  rw [pin_recorded hhost hssh hopenssh, hjoined, pin_eq ssh text, hlast, Option.or_none]

theorem recordKnownHost_synced {openssh : List Char}
    (hopenssh : ssh.toOpensshLine key = some openssh) (host : List Char) (file : KnownHosts) :
    (recordKnownHost ssh .synced host key file).2 =
      some (file.getD [] ++ knownHostLine host openssh) := by
  unfold recordKnownHost
  rw [hopenssh]

theorem unterminated_concat_lf (text more : List Char) :
    unterminated (text ++ (more ++ ['\n'])) = [] := by
  rw [unterminated, ← List.append_assoc]
  exact List.rtakeWhile_concat_neg _ _ _ (by decide)

/-- The file after a number of records that all succeed. -/
def recordAll (ssh : SshKey) (file : KnownHosts) (records : List (List Char × NoshPublicKey)) :
    KnownHosts :=
  records.foldl (fun file record => (recordKnownHost ssh .synced record.1 record.2 file).2) file

/-- **The file is a map: behind white space, the first key that is recorded for a host stays.** -/
theorem recordAll_found {ssh : SshKey} (hssh : OpenSshFormat ssh) {file : KnownHosts}
    {text : List Char} (htext : fileText file = some text)
    (hblank : ∀ ch ∈ unterminated text, isWhitespace ch = true)
    {records : List (List Char × NoshPublicKey)}
    (hrecords : ∀ record ∈ records,
      HostToken record.1 ∧ (ssh.toOpensshLine record.2).isSome = true)
    (other : List Char) :
    lookupKnownHost ssh true (recordAll ssh file records) other =
      some ((pin ssh text other).or ((records.find? (·.1 == other)).map (·.2))) := by
  -- the induction is on the records: after each of them, nothing follows the last line feed
  induction records generalizing file text with
  | nil =>
      rw [recordAll, List.foldl_nil, lookupKnownHost_eq, htext]
      exact congrArg some (Option.or_none).symm
  | cons record records ih =>
      obtain ⟨⟨hhost, hsome⟩, hrest⟩ := List.forall_mem_cons.mp hrecords
      obtain ⟨host, key⟩ := record
      obtain ⟨openssh, hopenssh⟩ := Option.isSome_iff_exists.mp hsome
      have hended : ∀ ch ∈ unterminated (text ++ (host ++ [' '] ++ openssh ++ ['\n'])),
          isWhitespace ch = true := by
        rw [unterminated_concat_lf]
        exact List.forall_mem_nil _
      have hlater := ih (fileText_append htext (host ++ [' '] ++ openssh ++ ['\n'])) hended hrest
      rw [recordAll, List.foldl_cons, recordKnownHost_synced hopenssh]
      refine hlater.trans ?_
      rw [pin_recorded_of_blank hblank hssh hhost hopenssh, Option.or_assoc, List.find?_cons]
      congr 2
      cases host == other with
      | true => rfl
      | false => exact Option.none_or

/-- Behind a file that pins `a`, two keys are recorded for `b`, and one for `a` and `c` each. -/
theorem recordAll_found_three :
    let file : KnownHosts := some (Utf8.encode (zeroLine ['a'] ++ ['\n']))
    let records := [(['b'], onesKey), (['a'], onesKey), (['c'], zeroKey), (['b'], zeroKey)]
    lookupKnownHost twoKeys true (recordAll twoKeys file records) ['a'] = some (some zeroKey) ∧
      lookupKnownHost twoKeys true (recordAll twoKeys file records) ['b'] = some (some onesKey) ∧
      lookupKnownHost twoKeys true (recordAll twoKeys file records) ['c'] =
        some (some zeroKey) := by
  dsimp only
  have hall := recordAll_found twoKeys_format (fileText_encode (zeroLine ['a'] ++ ['\n']))
    (List.all_eq_true.mp (by decide +kernel))
    (by decide +kernel :
      ∀ record ∈ [(['b'], onesKey), (['a'], onesKey), (['c'], zeroKey), (['b'], zeroKey)],
        HostToken record.1 ∧ (twoKeys.toOpensshLine record.2).isSome = true)
  simp only [hall]
  decide +kernel

end Nosh.Auth
