import UDPing.Agent.Synchronize
import UDPing.Lib.Getopt

/-!
# The commands that the agent's processes run

* `clientLine`, `serverLine`: the texts that `launchUDPingClient` and `launchUDPingServer` hand to a
  shell.
* `pipeline_clientLine`, `pipeline_serverLine`: the words that the shell makes of them, if what is put into
  them are plain words.
-/

namespace UDPing.Agent

open Lib
open UDPing.Controller (SqlValue)

/-- `%s` of a value; `repr` is the text of a `float`. Source: `udping_agent`, `launchUDPingClient`.
Kind: D -/
def str (repr : ℚ → Bytes) : SqlValue → Bytes
  | .integer n => signed n
  | .real q => repr q
  | .text t => t

/-- Source: `udping_agent`, `launchUDPingClient`. Kind: D -/
def clientLine (peerIp delayMs localIp mac : Bytes) : Bytes :=
  ascii "./udping_client -r " ++ peerIp ++ ascii " -p 7000 -d " ++ delayMs ++ ascii " -l " ++ localIp ++
    ascii " -s 7000 -n 10 -i 1 -m 1400 -a " ++ mac

/-- Source: `udping_agent`, `launchUDPingServer`. Kind: D -/
def serverLine (localIp meshName : Bytes) : Bytes :=
  ascii "./udping_server -l " ++ localIp ++ ascii " -p 7000 -k 1 | ./udping_otelsender -mesh=" ++
    meshName

/-- What a process hands to a shell, `mac` being what `launchUDPingClient` has found out.
Source: `udping_agent`, `launchUDPingClient`, `launchUDPingServer`
Kind: D
Fidelity: the line of `launchPing` is not modelled -/
def Command.line (repr : ℚ → Bytes) (mac : Bytes) : Command → Option Bytes
  | .udpingClient peerIp delayMs localIp => some (clientLine peerIp (str repr delayMs) localIp mac)
  | .udpingServer localIp meshName => some (serverLine localIp meshName)
  | _ => none

/-- The programs of a pipeline, each with its words. Source: `sh`. Kind: D -/
def pipeline (line : Bytes) : Option (List (List Bytes)) := (split 124 line).mapM shellWords

/-- The options of a client. Source: `udping_agent`, `launchUDPingClient`. Kind: D -/
def clientPairs (peerIp delayMs localIp mac : Bytes) : List (UInt8 × Bytes) :=
  [(byteOf 'r', peerIp), (byteOf 'p', ascii "7000"), (byteOf 'd', delayMs), (byteOf 'l', localIp),
    (byteOf 's', ascii "7000"), (byteOf 'n', ascii "10"), (byteOf 'i', ascii "1"),
    (byteOf 'm', ascii "1400"), (byteOf 'a', mac)]

/-- The options of a server. Source: `udping_agent`, `launchUDPingServer`. Kind: D -/
def serverPairs (localIp : Bytes) : List (UInt8 × Bytes) :=
  [(byteOf 'l', localIp), (byteOf 'p', ascii "7000"), (byteOf 'k', ascii "1")]

/-- A bar is in no word, so that it ends a program. Source: `sh`. Kind: L -/
theorem bar_notMem {ws : List Bytes} (hws : ∀ w ∈ ws, w = [] ∨ PlainWord w) :
    124 ∉ List.intercalate [32] ws := by
  intro hmem
  rcases mem_of_mem_intercalate hmem with h | ⟨w, hw, hb⟩
  · exact absurd h (by decide)
  · rcases hws w hw with rfl | hword
    · cases hb
    · exact absurd (hword.2 124 hb) (by decide)

/-- **The words of a client's command.** Source: `udping_agent`, `launchUDPingClient`. Kind: P -/
theorem pipeline_clientLine {peerIp delayMs localIp mac : Bytes} (hpeer : PlainWord peerIp)
    (hdelay : PlainWord delayMs) (hlocal : PlainWord localIp) (hmac : PlainWord mac) :
    pipeline (clientLine peerIp delayMs localIp mac) =
      some [ascii "./udping_client" :: pairWords (clientPairs peerIp delayMs localIp mac)] := by
  have hplain : ∀ w ∈ ascii "./udping_client" :: pairWords (clientPairs peerIp delayMs localIp mac),
      PlainWord w := by
    simp only [pairWords, clientPairs, List.flatMap_cons, List.flatMap_nil, List.append_nil,
      List.cons_append, List.nil_append, List.forall_mem_cons, hpeer, hdelay, hlocal, hmac, true_and]
    decide +kernel
  have hline : clientLine peerIp delayMs localIp mac = List.intercalate [32]
      (ascii "./udping_client" :: pairWords (clientPairs peerIp delayMs localIp mac)) := by
    simp only [clientLine, pairWords, clientPairs, List.flatMap_cons, List.flatMap_nil,
      List.append_nil, List.cons_append, List.nil_append, List.intercalate_cons_cons,
      List.intercalate_singleton, List.append_assoc]
    rfl
  have hwords := shellWords_intercalate fun w hw => Or.inr (hplain w hw)
  rw [filter_plainWords hplain] at hwords
  rw [pipeline, hline, split_of_notMem (bar_notMem fun w hw => Or.inr (hplain w hw)), List.mapM_cons,
    hwords]
  rfl

/-- **The words of a server's command**, and of the program that reads its output.
Source: `udping_agent`, `launchUDPingServer`
Kind: P -/
theorem pipeline_serverLine {localIp meshName : Bytes} (hlocal : PlainWord localIp)
    (hmesh : ∀ b ∈ meshName, isPlain b = true) :
    pipeline (serverLine localIp meshName) =
      some [ascii "./udping_server" :: pairWords (serverPairs localIp),
        [ascii "./udping_otelsender", ascii "-mesh=" ++ meshName]] := by
  have hserver : ∀ w ∈ ascii "./udping_server" :: pairWords (serverPairs localIp), PlainWord w := by
    simp only [pairWords, serverPairs, List.flatMap_cons, List.flatMap_nil, List.append_nil,
      List.cons_append, List.nil_append, List.forall_mem_cons, hlocal, true_and]
    decide +kernel
  have hsender : ∀ w ∈ [ascii "./udping_otelsender", ascii "-mesh=" ++ meshName], PlainWord w := by
    have hmesh' : PlainWord (ascii "-mesh=" ++ meshName) := by
      refine ⟨by simp [ascii], fun b hb => ?_⟩
      rcases List.mem_append.mp hb with hb | hb
      · have hall : ∀ b ∈ ascii "-mesh=", isPlain b = true := by decide +kernel
        exact hall b hb
      · exact hmesh b hb
    simp only [List.forall_mem_cons, hmesh']
    decide +kernel
  -- the blanks around the bar
  have hfirst : ∀ w ∈ ascii "./udping_server" :: pairWords (serverPairs localIp) ++ [[]],
      w = [] ∨ PlainWord w := by
    intro w hw
    rcases List.mem_append.mp hw with hw | hw
    · exact Or.inr (hserver w hw)
    · exact Or.inl (List.mem_singleton.mp hw)
  have hsecond : ∀ w ∈ [] :: [ascii "./udping_otelsender", ascii "-mesh=" ++ meshName],
      w = [] ∨ PlainWord w := by
    intro w hw
    rcases List.mem_cons.mp hw with rfl | hw
    · exact Or.inl rfl
    · exact Or.inr (hsender w hw)
  have hline : serverLine localIp meshName =
      List.intercalate [32] (ascii "./udping_server" :: pairWords (serverPairs localIp) ++ [[]]) ++
        124 :: List.intercalate [32]
          ([] :: [ascii "./udping_otelsender", ascii "-mesh=" ++ meshName]) := by
    simp only [serverLine, pairWords, serverPairs, List.flatMap_cons, List.flatMap_nil,
      List.append_nil, List.cons_append, List.nil_append, List.intercalate_cons_cons,
      List.intercalate_singleton, List.append_assoc]
    rfl
  have hwords := shellWords_intercalate hfirst
  have hwords' := shellWords_intercalate hsecond
  rw [List.filter_append, filter_plainWords hserver] at hwords
  rw [List.filter_cons_of_neg (by simp), filter_plainWords hsender] at hwords'
  rw [pipeline, hline, split_append_sep (bar_notMem hfirst), split_of_notMem (bar_notMem hsecond),
    List.mapM_cons, hwords, List.mapM_cons, hwords']
  rfl

end UDPing.Agent
