import Shaula.Library.Json
import Shaula.Library.Text
import Shaula.Core.Worker
import Shaula.Registry.Spec
import Mathlib.Algebra.Order.BigOperators.Group.List
import Mathlib.Algebra.Order.Ring.Nat
import Mathlib.Data.List.Sort

/-! # Values known to be sensitive

The string inputs of an operation, line by line and in the forms they may take in its output.  The
values stay within a budget; an input that does not fit it has all output withheld.
-/

namespace Shaula.Template

open Core Library Registry

/-- A record longer than this is withheld. -/
def recordLimit : Nat := 64 * 1024

/-- The readers and writers of the forms a value may take in the output. -/
structure Codecs where
  encodeBase64 : Bytes → String
  decodeBase64 : String → Option Bytes
  /-- A string as a JSON text. -/
  writeJson : String → String
  readJson : String → Option Json
  /-- The runner token of a bootstrap of a VM. -/
  vmToken : Json → Option String

def maxValues : Nat := 4096

def maxValueBytes : Nat := 4 * 1024 * 1024

/-- The values known to be sensitive, within their budgets. -/
structure SensitiveValues where
  values : List String
  bytes : Nat
  exhausted : Bool
  few : values.length ≤ maxValues
  sized : (values.map String.utf8ByteSize).sum ≤ bytes
  budget : bytes ≤ maxValueBytes

namespace SensitiveValues

/-- No value is known, and all of them are in the budget. -/
def none : SensitiveValues where
  values := []
  bytes := 0
  exhausted := false
  few := Nat.zero_le _
  sized := Nat.le_refl _
  budget := Nat.zero_le _

def exhaust (s : SensitiveValues) : SensitiveValues := { s with exhausted := true }

def withholdAll : SensitiveValues := none.exhaust

def insert (s : SensitiveValues) (value : String) : SensitiveValues :=
  if h : maxValues ≤ s.values.length ∨ maxValueBytes < s.bytes + value.utf8ByteSize then s.exhaust
  else if s.exhausted then s
  else
    { values := s.values ++ [value]
      bytes := s.bytes + value.utf8ByteSize
      exhausted := false
      few := by
        rw [List.length_append, List.length_singleton]
        omega
      sized := by
        have hsized := s.sized
        simp only [List.map_append, List.map_cons, List.map_nil, List.sum_append, List.sum_cons,
          List.sum_nil]
        omega
      budget := by omega }

/-- A short text or a boolean word is no credential. -/
def trivial (line : String) : Bool :=
  line.toList.length < 4 || line.toLower == "true" || line.toLower == "false"

/-- A text without the quotes around it. -/
def trimQuotes (text : String) : String :=
  String.ofList (((text.toList.dropWhile (· = '"')).reverse.dropWhile (· = '"')).reverse)

/-- The forms a line may take in the output, until the budgets are used up. -/
def addLines (C : Codecs) : List String → SensitiveValues → SensitiveValues
  | [], s => s
  | line :: rest, s =>
    let s :=
      if line.utf8ByteSize ≤ recordLimit then
        (((s.insert line).insert (C.encodeBase64 (Core.utf8 line))).insert
          (hexEncode (Core.utf8 line))).insert (trimQuotes (C.writeJson line))
      else s.exhaust
    if s.exhausted then s else addLines C rest s

def add (C : Codecs) (s : SensitiveValues) (text : String) : SensitiveValues :=
  if text = "" ∨ s.exhausted = true then s
  else if 1024 * 1024 < text.utf8ByteSize then s.exhaust
  else addLines C ((lines text).filter fun line => !trivial line) s

/-- Every string below `value`, and what it encodes, to the depth the fuel allows. -/
def collect (C : Codecs) : Nat → Json → SensitiveValues → SensitiveValues
  | 0, _, s => s.exhaust
  | fuel + 1, value, s =>
    if s.exhausted then s
    else
      match value with
      | .string text =>
        let s := s.add C text
        if text.utf8ByteSize < 1024 * 1024 then
          let s :=
            match (C.decodeBase64 text).bind fun bytes => String.fromUTF8? ⟨bytes.toArray⟩ with
            | some decoded =>
              let s := s.add C decoded
              match C.readJson decoded with
              | some nested => collect C fuel nested s
              | Option.none => s
            | Option.none => s
          match C.readJson text with
          | some (.string _) => s
          | some nested => collect C fuel nested s
          | Option.none => s
        else s
      | .array items => items.foldl (fun s item => collect C fuel item s) s
      | .object members => members.foldl (fun s member => collect C fuel member.2 s) s
      | _ => s

/-- How deep values are collected. -/
def collectDepth : Nat := 12

/-- Parts of an operation's input that hold values of their own. -/
def inputKeys : List String :=
  ["jit_config", "bindings", "parameters", "setup_info", "forgejo_vm", "gitlab_vm"]

/-- Settings of the state backend that are no secrets. -/
def publicSettings : List String :=
  ["TF_HTTP_UPDATE_METHOD", "TF_HTTP_LOCK_METHOD", "TF_HTTP_UNLOCK_METHOD", "TF_HTTP_USERNAME",
    "TF_HTTP_RETRY_MAX", "TF_HTTP_RETRY_WAIT_MIN", "TF_HTTP_RETRY_WAIT_MAX"]

/-- Equal neighbours are kept once. -/
def dedup : List String → List String
  | [] => []
  | [value] => [value]
  | first :: second :: rest =>
    if first = second then dedup (second :: rest) else first :: dedup (second :: rest)

theorem dedup_sublist (values : List String) : (dedup values).Sublist values := by
  fun_induction dedup values with
  | case1 => exact .slnil
  | case2 value => exact .refl _
  | case3 first rest ih => exact ih.cons _
  | case4 first second rest _ ih => exact ih.cons_cons _

/-- The longest values first, so that none hides in another. -/
def ordered (s : SensitiveValues) : SensitiveValues :=
  { s with
    values := dedup (s.values.insertionSort fun a b => b.utf8ByteSize ≤ a.utf8ByteSize)
    few := by
      have hlength := (dedup_sublist
        (s.values.insertionSort fun a b => b.utf8ByteSize ≤ a.utf8ByteSize)).length_le
      rw [List.length_insertionSort] at hlength
      exact Nat.le_trans hlength s.few
    sized := by
      have hsub := ((dedup_sublist (s.values.insertionSort fun a b =>
        b.utf8ByteSize ≤ a.utf8ByteSize)).map String.utf8ByteSize).sum_le_sum (by simp)
      have hperm := ((List.perm_insertionSort (fun a b : String =>
        b.utf8ByteSize ≤ a.utf8ByteSize) s.values).map String.utf8ByteSize).sum_eq
      exact Nat.le_trans (hperm ▸ hsub) s.sized }

/-- All string inputs, and all settings of the environment that are not public. -/
def fromInput (C : Codecs) (value : Json) (env : List (String × String)) : SensitiveValues :=
  let input := (value.get "shaula").getD value
  let s := inputKeys.foldl (fun s key =>
    match input.get key with
    | some part => collect C (collectDepth + 1) part s
    | Option.none => s) none
  let s :=
    match (input.get "gitlab_vm").bind C.vmToken with
    | some token => s.add C token
    | Option.none => s
  (env.foldl (fun s setting =>
    if publicSettings.contains setting.1 then s else s.add C setting.2) s).ordered

end SensitiveValues

end Shaula.Template
