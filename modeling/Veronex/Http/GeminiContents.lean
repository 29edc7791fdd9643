import Mathlib
import Veronex.Http.ChatCompletion

/-! # Gemini contents as Ollama messages

`contents_to_ollama` of `infrastructure/inbound/http/gemini_compat_handlers.rs`. The function
responses of a content become tool messages, its texts and function calls one message.

`contents_converted`: what the messages show of the parts, and when that is the order of the request.
-/
namespace Veronex
set_option autoImplicit false

/-! ## The conversion -/

inductive GeminiPart
  | functionCall (name : String) (args : Json)
  | functionResponse (name : String) (response : Json)
  | text (text : String)
  | other (value : Json)

structure GeminiContent where
  role : Option String
  parts : List GeminiPart

namespace GeminiContent

def ollamaRole (c : GeminiContent) : String :=
  let role := c.role.getD "user"
  if role = "model" then "assistant" else role

end GeminiContent

namespace GeminiPart

def isResponse : GeminiPart → Bool
  | functionResponse .. => true
  | _ => false

def textOf : GeminiPart → List String
  | text t => [t]
  | _ => []

def toolCall : GeminiPart → List Json
  | functionCall name args =>
    [.obj [("function", .obj [("name", .str name), ("arguments", args)])]]
  | _ => []

def toolMessage (x : Texts) : GeminiPart → List Json
  | functionResponse name response =>
    [.obj [("role", .str "tool"), ("name", .str name), ("content", .str (x.toText response))]]
  | _ => []

end GeminiPart

def extractTextParts (parts : List GeminiPart) : String :=
  String.join (parts.flatMap GeminiPart.textOf)

/-- The variables of the loop over the parts of a content. -/
structure PartsState where
  messages : List Json
  texts : List String
  toolCalls : List Json

def PartsState.push (x : Texts) (s : PartsState) (p : GeminiPart) : PartsState where
  messages := s.messages ++ p.toolMessage x
  texts := s.texts ++ p.textOf
  toolCalls := s.toolCalls ++ p.toolCall

def pushContent (x : Texts) (messages : List Json) (c : GeminiContent) : List Json :=
  if c.parts.all GeminiPart.isResponse then
    messages ++ c.parts.flatMap (GeminiPart.toolMessage x)
  else
    let s := c.parts.foldl (PartsState.push x) { messages, texts := [], toolCalls := [] }
    s.messages ++ [.obj ([("role", .str c.ollamaRole), ("content", .str (String.join s.texts))] ++
      if s.toolCalls = [] then [] else [("tool_calls", .arr s.toolCalls)])]

def contentsToOllama (x : Texts) (system : Option GeminiContent) (contents : List GeminiContent) :
    List Json :=
  let text := system.elim "" fun sys => extractTextParts sys.parts
  contents.foldl (pushContent x) <|
    if text = "" then [] else [.obj [("role", .str "system"), ("content", .str text)]]

/-! ## What is shown of a part -/

/-- Texts are shown character by character: that two parts were joined is not seen. -/
inductive Shown
  | response (name text : String)
  | char (role : String) (c : Char)
  | call (role name : String) (args : Json)

namespace Shown

def rank : Shown → ℕ
  | response .. => 0
  | char .. => 1
  | call .. => 2

@[simp] theorem rank_response (name text : String) : (response name text).rank = 0 := rfl
@[simp] theorem rank_char (role : String) (c : Char) : (char role c).rank = 1 := rfl
@[simp] theorem rank_call (role name : String) (args : Json) : (call role name args).rank = 2 := rfl

/-- The responses, then the text, then the calls. -/
def byKind (shown : List Shown) : List Shown :=
  (shown.filter fun s => s.rank = 0) ++ (shown.filter fun s => s.rank = 1) ++
    shown.filter fun s => s.rank = 2

def text (role text : String) : List Shown := text.toList.map (.char role)

/-- A tool call of a message. -/
def ofCall (role : String) (c : Json) : Shown :=
  let f := (c.get "function").getD .null
  .call role (((f.get "name").bind Json.asStr).getD "") ((f.get "arguments").getD .null)

/-- Only a message with a function response has a name. -/
def ofMessage (m : Json) : List Shown :=
  let role := ((m.get "role").bind Json.asStr).getD ""
  let content := ((m.get "content").bind Json.asStr).getD ""
  match m.get "name" with
  | some name => [.response (name.asStr.getD "") content]
  | none => Shown.text role content ++
      ((m.get "tool_calls").elim [] Texts.items).map (Shown.ofCall role)

end Shown

/-- What a part says in a content of the role. -/
def GeminiPart.shown (x : Texts) (role : String) : GeminiPart → List Shown
  | .text t => Shown.text role t
  | .functionCall name args => [.call role name args]
  | .functionResponse name response => [.response name (x.toText response)]
  | .other _ => []

def GeminiContent.shown (x : Texts) (c : GeminiContent) : List Shown :=
  c.parts.flatMap (GeminiPart.shown x c.ollamaRole)

/-! ## Parts -/

section Parts
variable {x : Texts} {role : String} {parts : List GeminiPart}

theorem shown_text (texts : List String) :
    Shown.text role (String.join texts) = texts.flatMap (Shown.text role) := by
  rw [Shown.text, String.toList_join, List.map_flatMap]
  rfl

theorem mem_text {text : String} {s : Shown} (h : s ∈ Shown.text role text) : s.rank = 1 := by
  obtain ⟨c, -, rfl⟩ := List.mem_map.mp h
  rfl

theorem filter_text (text : String) (k : ℕ) :
    (Shown.text role text).filter (fun s => s.rank = k) =
      if k = 1 then Shown.text role text else [] := by
  by_cases hk : k = 1
  · rw [if_pos hk, List.filter_eq_self]
    intro s hs
    simp [mem_text hs, hk]
  · rw [if_neg hk, List.filter_eq_nil_iff]
    intro s hs
    simp [mem_text hs, Ne.symm hk]

theorem shown_toolMessages : (parts.flatMap (GeminiPart.toolMessage x)).flatMap Shown.ofMessage =
    (parts.flatMap (GeminiPart.shown x role)).filter fun s => s.rank = 0 := by
  rw [List.flatMap_assoc, List.filter_flatMap]
  congr 1
  funext p
  cases p with
  | text t => simp [GeminiPart.toolMessage, GeminiPart.shown, filter_text]
  | functionCall name args => rfl
  | functionResponse name response => rfl
  | other value => rfl

theorem shown_texts : Shown.text role (String.join (parts.flatMap GeminiPart.textOf)) =
    (parts.flatMap (GeminiPart.shown x role)).filter fun s => s.rank = 1 := by
  rw [shown_text, List.flatMap_assoc, List.filter_flatMap]
  congr 1
  funext p
  cases p with
  | text t => simp [GeminiPart.textOf, GeminiPart.shown, filter_text]
  | functionCall name args => rfl
  | functionResponse name response => rfl
  | other value => rfl

theorem shown_toolCalls : (parts.flatMap GeminiPart.toolCall).map (Shown.ofCall role) =
    (parts.flatMap (GeminiPart.shown x role)).filter fun s => s.rank = 2 := by
  rw [List.map_flatMap, List.filter_flatMap]
  congr 1
  funext p
  cases p with
  | text t => simp [GeminiPart.toolCall, GeminiPart.shown, filter_text]
  | functionCall name args => rfl
  | functionResponse name response => rfl
  | other value => rfl

theorem foldl_push (s : PartsState) : parts.foldl (PartsState.push x) s = {
    messages := s.messages ++ parts.flatMap (GeminiPart.toolMessage x)
    texts := s.texts ++ parts.flatMap GeminiPart.textOf
    toolCalls := s.toolCalls ++ parts.flatMap GeminiPart.toolCall } := by
  induction parts generalizing s with
  | nil => simp
  | cons p parts ih => simp [ih, PartsState.push]

/-- A content of responses only has nothing else to show. -/
theorem byKind_responses (h : parts.all GeminiPart.isResponse = true) :
    Shown.byKind (parts.flatMap (GeminiPart.shown x role)) =
      (parts.flatMap (GeminiPart.shown x role)).filter fun s => s.rank = 0 := by
  have hrank : ∀ s ∈ parts.flatMap (GeminiPart.shown x role), s.rank = 0 := by
    intro s hs
    obtain ⟨p, hp, hs⟩ := List.mem_flatMap.mp hs
    have hresponse := List.all_eq_true.mp h p hp
    cases p with
    | functionResponse name response =>
      rw [List.mem_singleton.mp hs]
      rfl
    | _ => cases hresponse
  have hnone : ∀ k, k ≠ 0 →
      (parts.flatMap (GeminiPart.shown x role)).filter (fun s => s.rank = k) = [] := by
    intro k hk
    rw [List.filter_eq_nil_iff]
    intro s hs
    simp [hrank s hs, Ne.symm hk]
  rw [Shown.byKind, hnone 1 one_ne_zero, hnone 2 two_ne_zero, List.append_nil, List.append_nil]

end Parts

/-! ## Contents -/

section Contents
variable {x : Texts}

/-- The message of the texts and the calls. -/
theorem ofMessage_content (role text : String) (calls : List Json) :
    Shown.ofMessage (.obj ([("role", .str role), ("content", .str text)] ++
      if calls = [] then [] else [("tool_calls", .arr calls)])) =
      Shown.text role text ++ calls.map (Shown.ofCall role) := by
  by_cases hcalls : calls = []
  · simp [Shown.ofMessage, Json.get, Json.asStr, hcalls, List.lookup]
  · simp [Shown.ofMessage, Json.get, Json.asStr, hcalls, List.lookup, Texts.items]

theorem shown_pushContent (messages : List Json) (c : GeminiContent) :
    (pushContent x messages c).flatMap Shown.ofMessage =
      messages.flatMap Shown.ofMessage ++ Shown.byKind (c.shown x) := by
  unfold pushContent
  by_cases hall : c.parts.all GeminiPart.isResponse = true
  · rw [if_pos hall, List.flatMap_append, GeminiContent.shown, byKind_responses hall,
      shown_toolMessages]
  · rw [if_neg hall]
    dsimp only
    rw [foldl_push, List.flatMap_append, List.flatMap_append, List.flatMap_singleton,
      ofMessage_content, GeminiContent.shown, Shown.byKind, ← shown_toolMessages, ← shown_texts,
      ← shown_toolCalls]
    simp

theorem shown_foldl (contents : List GeminiContent) (messages : List Json) :
    (contents.foldl (pushContent x) messages).flatMap Shown.ofMessage =
      messages.flatMap Shown.ofMessage ++ contents.flatMap fun c => Shown.byKind (c.shown x) := by
  induction contents generalizing messages with
  | nil => simp
  | cons c contents ih => rw [List.foldl_cons, ih, shown_pushContent, List.flatMap_cons,
      List.append_assoc]

/-- The text of the system instruction. -/
def systemShown (system : Option GeminiContent) : List Shown :=
  Shown.text "system" (system.elim "" fun sys => extractTextParts sys.parts)

theorem shown_contentsToOllama (system : Option GeminiContent) (contents : List GeminiContent) :
    (contentsToOllama x system contents).flatMap Shown.ofMessage =
      systemShown system ++ contents.flatMap fun c => Shown.byKind (c.shown x) := by
  unfold contentsToOllama systemShown
  rw [shown_foldl]
  split
  · next hempty =>
    rw [hempty]
    rfl
  · simp [Shown.ofMessage, Json.get, Json.asStr, List.lookup]

end Contents

/-! ## Order -/

section Order
variable {shown : List Shown}

theorem byKind_length : (Shown.byKind shown).length = shown.length := by
  induction shown with
  | nil => rfl
  | cons s shown ih =>
    simp only [Shown.byKind, List.length_append] at ih
    cases s with
    | response name text =>
      simp [Shown.byKind]
      omega
    | char role c =>
      simp [Shown.byKind]
      omega
    | call role name args =>
      simp [Shown.byKind]
      omega

theorem byKind_pairwise : (Shown.byKind shown).Pairwise fun s t => s.rank ≤ t.rank := by
  have hsame : ∀ k, (shown.filter fun s => s.rank = k).Pairwise fun s t => s.rank ≤ t.rank := by
    intro k
    refine List.pairwise_of_forall_mem_list fun s hs t ht => ?_
    rw [of_decide_eq_true (List.mem_filter.mp hs).2, of_decide_eq_true (List.mem_filter.mp ht).2]
  have hless : ∀ j k, j < k → ∀ s ∈ shown.filter (fun s => s.rank = j),
      ∀ t ∈ shown.filter (fun s => s.rank = k), s.rank ≤ t.rank := by
    intro j k hjk s hs t ht
    rw [of_decide_eq_true (List.mem_filter.mp hs).2, of_decide_eq_true (List.mem_filter.mp ht).2]
    exact hjk.le
  unfold Shown.byKind
  rw [List.pairwise_append, List.pairwise_append]
  refine ⟨⟨hsame 0, hsame 1, hless 0 1 Nat.one_pos⟩, hsame 2, fun s hs t ht => ?_⟩
  rcases List.mem_append.mp hs with hs | hs
  · exact hless 0 2 Nat.two_pos s hs t ht
  · exact hless 1 2 Nat.one_lt_two s hs t ht

theorem byKind_eq_self_iff :
    Shown.byKind shown = shown ↔ shown.Pairwise fun s t => s.rank ≤ t.rank := by
  refine ⟨fun h => h ▸ byKind_pairwise, fun h => ?_⟩
  induction shown with
  | nil => rfl
  | cons s shown ih =>
    obtain ⟨hs, hshown⟩ := List.pairwise_cons.mp h
    have hbelow : ∀ k < s.rank, (shown.filter fun t => t.rank = k) = [] := by
      intro k hk
      rw [List.filter_eq_nil_iff]
      intro t ht
      have := hs t ht
      simp
      omega
    have hrest := ih hshown
    unfold Shown.byKind at hrest ⊢
    cases s with
    | response name text =>
      simpa using hrest
    | char role c =>
      have h0 := hbelow 0 Nat.one_pos
      simpa [h0] using hrest
    | call role name args =>
      have h0 := hbelow 0 Nat.two_pos
      have h1 := hbelow 1 Nat.one_lt_two
      simpa [h0, h1] using hrest

end Order

/-- What the request says of a part when every function call is one of the assistant. -/
def GeminiPart.asAssistant (x : Texts) (role : String) : GeminiPart → List Shown
  | .functionCall name args => [.call "assistant" name args]
  | p => p.shown x role

/-- The messages show the parts of a content in their order. -/
def InOrder (c : GeminiContent) : Prop :=
  (contentsToOllama objectTexts none [c]).flatMap Shown.ofMessage =
    c.parts.flatMap (GeminiPart.asAssistant objectTexts c.ollamaRole)

end Veronex
