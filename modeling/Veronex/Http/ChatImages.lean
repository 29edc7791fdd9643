import Veronex.Inference.TokenStream
import Veronex.Mcp.Bridge
import Veronex.Telemetry.Otlp

/-! # Images of a chat

The images that `chat_completions` (`openai_handlers.rs`) and `chat` (`ollama_compat_handlers.rs`)
submit with a job, after the checks of the model's name and of lengths. How an oversized image is
compressed, what a conversation has stored, and the text of a long prompt that was compressed are
parameters.

`last_images_iff`: for which requests these are the images of the last user message.
-/
namespace Veronex.ChatImages
set_option autoImplicit false

/-! ## Messages -/

structure ContentPart where
  partType : String
  text : Option String
  /-- The `url` of `image_url`. -/
  imageUrl : Option String

inductive MessageContent
  | text (s : String)
  | parts (parts : List ContentPart)

/-- The base64 text of an image URL, `none` for a malformed data URI. -/
def imageOfUrl (url : String) : Option String :=
  match findSub ";base64,".toList url.toList with
  | some pos => some (String.ofList (url.toList.drop (pos + 8)))
  | none => if "data:".toList.isPrefixOf url.toList then none else some url

def MessageContent.intoString : MessageContent → String
  | .text s => s
  | .parts ps => "\n".intercalate ((ps.filter fun p => p.partType = "text").filterMap ContentPart.text)

def MessageContent.extractImages : MessageContent → List String
  | .text _ => []
  | .parts ps =>
    ((ps.filter fun p => p.partType = "image_url").filterMap ContentPart.imageUrl).filterMap imageOfUrl

structure ChatMessage where
  role : String
  content : Option MessageContent
  toolCalls : Option Json
  toolCallId : Option String
  name : Option String
  images : Option (List String)

namespace ChatMessage

def newSystem (text : String) : ChatMessage where
  role := "system"
  content := some (.text text)
  toolCalls := none
  toolCallId := none
  name := none
  images := none

/-- A message of a stored conversation. -/
def stored (role content : String) : ChatMessage where
  role := role
  content := some (.text content)
  toolCalls := none
  toolCallId := none
  name := none
  images := none

def contentStr (m : ChatMessage) : String := m.content.elim "" MessageContent.intoString

def contentImages (m : ChatMessage) : List String := m.content.elim [] MessageContent.extractImages

/-- The images of a message, of its content and beside it. -/
def allImages (m : ChatMessage) : List String := m.contentImages ++ m.images.getD []

def isUser (m : ChatMessage) : Bool := m.role = "user"

/-- Ollama wants the arguments as an object, not as its text. -/
def ollamaCall (fromStr : String → Option Json) (c : Json) : Json :=
  let function := c.get "function"
  .obj [("function", .obj [
    ("name", .str (((function.bind fun f => f.get "name").bind Json.asStr).getD "")),
    ("arguments", (((function.bind fun f => f.get "arguments").bind Json.asStr).bind fromStr).getD
      (.obj []))])]

def intoOllamaValue (fromStr : String → Option Json) (m : ChatMessage) : Json :=
  .obj (("role", .str m.role) :: ("content", .str m.contentStr) ::
    ((m.name.map fun name => ("name", Json.str name)).toList ++
      (((m.toolCalls.bind Json.asArray).map fun calls =>
        ("tool_calls", Json.arr (calls.map (ollamaCall fromStr)))).toList ++
      ((m.toolCallId.map fun id => ("tool_call_id", Json.str id)).toList ++
      ((m.images.filter (· ≠ [])).map fun imgs =>
        ("images", Json.arr (imgs.map Json.str))).toList))))

end ChatMessage

/-- The texts of the array `images`. -/
def messageImages (m : Json) : List String :=
  (((m.get "images").bind Json.asArray).getD []).filterMap Json.asStr

/-- `m["content"] = content`, of an object. -/
def setContent (content : String) : Json → Json
  | .obj fields =>
    if fields.any fun f => f.1 = "content" then
      .obj (fields.map fun f => if f.1 = "content" then (f.1, .str content) else f)
    else .obj (fields ++ [("content", .str content)])
  | m => m

/-- The first message of this kind is rewritten. -/
def rewriteFirst {α : Type} (p : α → Bool) (f : α → α) : List α → List α
  | [] => []
  | x :: xs => if p x then f x :: xs else x :: rewriteFirst p f xs

/-- The last user message gets the content, if there is one. -/
def rewriteLastUser (content : Option String) (messages : List Json) : List Json :=
  match content with
  | some c => (rewriteFirst (hasRole "user") (setContent c) messages.reverse).reverse
  | none => messages

/-! ## Handlers -/

structure ChatCompletionRequest where
  messages : List ChatMessage
  providerType : Option String
  images : Option (List String)
  useMcp : Option Bool

structure Handlers where
  maxImagesPerRequest : ℤ
  maxImageB64Bytes : ℤ
  /-- The image, or why it is refused. -/
  compress : String → Except String String
  /-- `serde_json::from_str`. -/
  fromStr : String → Option Json
  currentDatetime : String
  /-- The bridge has sessions and the caller may use it. -/
  mcpIntercepts : Bool

namespace Handlers
variable (h : Handlers)

def validateAndCompressImages (images : Option (List String)) : Except String (Option (List String)) :=
  match images with
  | none => .ok none
  | some imgs =>
    if imgs = [] then .ok (some [])
    else
      let maxCount := (h.maxImagesPerRequest % 2 ^ 64).toNat
      let maxBytes := (h.maxImageB64Bytes % 2 ^ 64).toNat
      if maxCount = 0 then .error "image input is disabled"
      else if maxCount < imgs.length then .error s!"too many images (max {maxCount})"
      else (imgs.mapM fun img => if maxBytes < img.utf8ByteSize then h.compress img else .ok img).map some

/-- Empty lists are not sent. -/
def someImages (imgs : List String) : Option (List String) := if imgs = [] then none else some imgs

def lastUser (messages : List Json) : Option Json := messages.reverse.find? (hasRole "user")

/-- `history` is what is put before the messages, roles and contents. -/
def ollamaChatProxy (history : List (String × String)) (compressed : Option String)
    (req : ChatCompletionRequest) : Option (List String) :=
  let messages := history.map (fun t => ChatMessage.stored t.1 t.2) ++ req.messages
  let contentImages := (messages.filter ChatMessage.isUser).flatMap ChatMessage.contentImages
  let ollamaMessages := rewriteLastUser compressed (messages.map (ChatMessage.intoOllamaValue h.fromStr))
  someImages (req.images.getD [] ++ contentImages ++
    (lastUser ollamaMessages).elim [] messageImages)

def legacyQueueChat (req : ChatCompletionRequest) : Except String (Option (List String)) :=
  let prompt := (req.messages.reverse.find? ChatMessage.isUser).elim "" ChatMessage.contentStr
  if prompt = "" then .error "no user message found in messages array" else .ok req.images

def hasAnyImages (req : ChatCompletionRequest) : Bool :=
  req.images.any (· ≠ []) || req.messages.any fun m => m.images.any (· ≠ []) ||
    match m.content with
    | some (.parts ps) => ps.any fun p => p.partType = "image_url"
    | _ => false

/-- The rounds of the tool loop have no images. -/
def chatCompletions (history : List (String × String)) (compressed : Option String)
    (req : ChatCompletionRequest) : Except String (Option (List String)) := do
  let images ← h.validateAndCompressImages req.images
  let req := { req with
    images := images
    messages := ChatMessage.newSystem h.currentDatetime :: req.messages }
  if req.providerType.getD "ollama" = "ollama" then
    let skipMcp := hasAnyImages req || !req.useMcp.getD true
    if !skipMcp && h.mcpIntercepts then return none
    else return h.ollamaChatProxy history compressed req
  else legacyQueueChat req

/-- `history` is there when a conversation was loaded. -/
def chat (history : Option (List (String × String))) (compressed : Option String)
    (messages : List Json) : Except String (Option (List String)) :=
  if messages.any (hasRole "user") then
    let messages := rewriteLastUser compressed messages
    let messages := match history with
      | some turns => turns.map (fun t : String × String => chatMessage t.1 t.2) ++ (lastUser messages).toList
      | none => messages
    h.validateAndCompressImages
      (someImages ((messages.filter (hasRole "user")).flatMap messageImages))
  else .error "no user message found in messages array"

/-! ## What is to be sent -/

/-- What a job gets, if one is submitted. -/
def Submits (handled : Except String (Option (List String))) (expected : Except String (List String)) :
    Prop :=
  ∀ images, handled = .ok images → expected = .ok (images.getD [])

/-- The top-level images, checked, and those of the last user message. -/
def chatCompletionsExpected (req : ChatCompletionRequest) : Except String (List String) :=
  (h.validateAndCompressImages req.images).map fun top =>
    top.getD [] ++ (req.messages.reverse.find? ChatMessage.isUser).elim [] ChatMessage.allImages

/-- The images of the last user message, checked. -/
def chatExpected (messages : List Json) : Except String (List String) :=
  (h.validateAndCompressImages (some ((lastUser messages).elim [] messageImages))).map fun images =>
    images.getD []

end Handlers

/-! ## Lists -/

section Lists
variable {α β : Type} {p : α → Bool} {f : α → α} {g : α → List β} {l : List α}

theorem rewriteFirst_find (hf : ∀ x, p x = true → p (f x) = true) :
    (rewriteFirst p f l).find? p = (l.find? p).map f := by
  induction l with
  | nil => rfl
  | cons x xs ih =>
    rw [rewriteFirst]
    split
    · next hx =>
      rw [List.find?_cons_of_pos (hf x hx), List.find?_cons_of_pos hx]
      rfl
    · next hx =>
      rw [List.find?_cons_of_neg hx, List.find?_cons_of_neg hx, ih]

/-- What the messages of the kind give does not change, where the rewriting keeps it. -/
theorem rewriteFirst_map {γ : Type} {g : α → γ} (hf : ∀ x, p x = true → p (f x) = true)
    (hg : ∀ x, g (f x) = g x) : ((rewriteFirst p f l).filter p).map g = (l.filter p).map g := by
  induction l with
  | nil => rfl
  | cons x xs ih =>
    rw [rewriteFirst]
    split
    · next hx =>
      rw [List.filter_cons_of_pos (hf x hx), List.filter_cons_of_pos hx, List.map_cons, List.map_cons,
        hg x]
    · next hx => rw [List.filter_cons_of_neg hx, List.filter_cons_of_neg hx, ih]

theorem find_reverse : l.reverse.find? p = (l.filter p).getLast? := by
  rw [← List.head?_filter, List.filter_reverse, List.head?_reverse]

/-- What a list gives, its last apart. -/
theorem flatMap_dropLast : l.flatMap g = l.dropLast.flatMap g ++ l.getLast?.elim [] g := by
  rcases List.eq_nil_or_concat l with rfl | ⟨earlier, x, rfl⟩
  · rfl
  · rw [List.concat_eq_append, List.flatMap_append, List.getLast?_concat, List.dropLast_concat]
    simp

end Lists

/-! ## Messages in JSON -/

section Messages
variable {content key : String} {m : Json}

theorem lookup_setContent (hkey : key ≠ "content") (fields : List (String × Json)) :
    (fields.map fun f => if f.1 = "content" then (f.1, Json.str content) else f).lookup key =
      fields.lookup key := by
  induction fields with
  | nil => rfl
  | cons f fields ih =>
    obtain ⟨name, v⟩ := f
    by_cases hname : name = "content"
    · have hbeq : (key == name) = false := beq_false_of_ne (hname ▸ hkey)
      rw [List.map_cons, if_pos hname, List.lookup_cons, List.lookup_cons, hbeq]
      exact ih
    · rw [List.map_cons, if_neg hname, List.lookup_cons, List.lookup_cons, ih]

/-- Other keys keep their values. -/
theorem get_setContent (hkey : key ≠ "content") : (setContent content m).get key = m.get key := by
  cases m with
  | obj fields =>
    rw [setContent]
    by_cases hany : fields.any (fun f => f.1 = "content") = true
    · rw [if_pos hany]
      exact lookup_setContent hkey fields
    · have hbeq : (key == "content") = false := beq_false_of_ne hkey
      rw [if_neg hany]
      simp [Json.get, List.lookup_append, List.lookup_cons, hbeq]
  | _ => rfl

theorem hasRole_setContent {role : String} : hasRole role (setContent content m) = hasRole role m := by
  rw [hasRole, hasRole, get_setContent (by decide)]

theorem messageImages_setContent : messageImages (setContent content m) = messageImages m := by
  rw [messageImages, messageImages, get_setContent (by decide)]

/-- The last user message has the images it had. -/
theorem lastUser_rewritten (compressed : Option String) (messages : List Json) :
    (Handlers.lastUser (rewriteLastUser compressed messages)).elim [] messageImages =
      (Handlers.lastUser messages).elim [] messageImages := by
  cases compressed with
  | none => rfl
  | some c =>
    have hrole : ∀ x, hasRole "user" x = true → hasRole "user" (setContent c x) = true := fun x hx => by
      rwa [hasRole_setContent]
    unfold Handlers.lastUser rewriteLastUser
    dsimp only
    rw [List.reverse_reverse, rewriteFirst_find hrole]
    cases messages.reverse.find? (hasRole "user") with
    | none => rfl
    | some m => exact messageImages_setContent

theorem userImages_rewritten (compressed : Option String) (messages : List Json) :
    ((rewriteLastUser compressed messages).filter (hasRole "user")).flatMap messageImages =
      (messages.filter (hasRole "user")).flatMap messageImages := by
  cases compressed with
  | none => rfl
  | some c =>
    have hrole : ∀ x, hasRole "user" x = true → hasRole "user" (setContent c x) = true := fun x hx => by
      rwa [hasRole_setContent]
    have hkept := rewriteFirst_map (l := messages.reverse) hrole fun x =>
      @messageImages_setContent c x
    unfold rewriteLastUser
    dsimp only
    rw [List.flatMap_def, List.flatMap_def, List.filter_reverse, List.map_reverse, hkept,
      List.filter_reverse, List.map_reverse, List.reverse_reverse]

theorem messageImages_chatMessage (role content : String) :
    messageImages (chatMessage role content) = [] := by
  simp [messageImages, chatMessage, Json.get_obj_cons, Json.get_obj_nil]

variable {fromStr : String → Option Json} {msg : ChatMessage}

theorem hasRole_intoOllamaValue : hasRole "user" (msg.intoOllamaValue fromStr) = msg.isUser := by
  rw [hasRole, ChatMessage.intoOllamaValue, Json.get_obj_cons, if_pos rfl, Bool.eq_iff_iff]
  simp [Json.asStr, ChatMessage.isUser]

/-- A field that may be absent is not one of another name. -/
theorem get_obj_optional {α : Type} {name : String} (hkey : key ≠ name) (o : Option α) (f : α → Json)
    (rest : List (String × Json)) :
    (Json.obj ((o.map fun v => (name, f v)).toList ++ rest)).get key = (Json.obj rest).get key := by
  cases o with
  | none => rfl
  | some v =>
    rw [Option.map_some, Option.toList_some, List.singleton_append, Json.get_obj_cons, if_neg hkey]

theorem messageImages_intoOllamaValue :
    messageImages (msg.intoOllamaValue fromStr) = msg.images.getD [] := by
  have hget : (msg.intoOllamaValue fromStr).get "images" =
      (msg.images.filter (· ≠ [])).map fun imgs => Json.arr (imgs.map Json.str) := by
    rw [ChatMessage.intoOllamaValue, Json.get_obj_cons, if_neg (by decide), Json.get_obj_cons,
      if_neg (by decide), get_obj_optional (by decide), get_obj_optional (by decide),
      get_obj_optional (by decide)]
    cases msg.images.filter (· ≠ []) with
    | none => rfl
    | some imgs => simp [Json.get_obj_cons]
  rw [messageImages, hget]
  cases msg.images with
  | none => rfl
  | some imgs =>
    by_cases hnil : imgs = []
    · rw [hnil]
      rfl
    · have hstr : (imgs.map Json.str).filterMap Json.asStr = imgs := by
        simp [List.filterMap_map, Function.comp_def, Json.asStr]
      simp [hnil, Json.asArray, hstr, Option.filter]

end Messages

/-! ## What is submitted -/

section Submitted
variable {h : Handlers} {req : ChatCompletionRequest} {messages : List Json}

theorem mapM_length {α β ε : Type} {f : α → Except ε β} :
    ∀ {l : List α} {out : List β}, l.mapM f = .ok out → out.length = l.length := by
  intro l
  induction l with
  | nil =>
    intro out hout
    cases hout
    rfl
  | cons x xs ih =>
    intro out hout
    rw [List.mapM_cons] at hout
    cases hx : f x with
    | error e =>
      rw [hx] at hout
      cases hout
    | ok y =>
      rw [hx] at hout
      cases hxs : xs.mapM f with
      | error e =>
        simp only [hxs] at hout
        cases hout
      | ok ys =>
        simp only [hxs] at hout
        cases hout
        rw [List.length_cons, List.length_cons, ih hxs]

/-- The check keeps the number of images. -/
theorem validate_length {images out : Option (List String)}
    (hout : h.validateAndCompressImages images = .ok out) :
    (out.getD []).length = (images.getD []).length := by
  unfold Handlers.validateAndCompressImages at hout
  cases images with
  | none =>
    cases hout
    rfl
  | some imgs =>
    dsimp only at hout
    split at hout
    · next hnil =>
      cases hout
      rw [hnil]
    · split at hout
      · cases hout
      · split at hout
        · cases hout
        · cases hmap : imgs.mapM fun img =>
              if (h.maxImageB64Bytes % 2 ^ 64).toNat < img.utf8ByteSize then h.compress img else .ok img with
          | error e =>
            rw [hmap] at hout
            cases hout
          | ok compressed =>
            rw [hmap] at hout
            cases hout
            exact mapM_length hmap

theorem someImages_getD (imgs : List String) : (Handlers.someImages imgs).getD [] = imgs := by
  unfold Handlers.someImages
  split
  · next hnil => exact hnil.symm
  · rfl

/-! ### The Ollama handler -/

/-- The images of the user messages before the last. -/
def earlierImages (messages : List Json) : List String :=
  (messages.filter (hasRole "user")).dropLast.flatMap messageImages

/-- What is checked. -/
def collectedImages (messages : List Json) : List String :=
  (messages.filter (hasRole "user")).flatMap messageImages

theorem chat_eq (history : Option (List (String × String))) (compressed : Option String)
    (huser : messages.any (hasRole "user") = true) :
    h.chat history compressed messages = h.validateAndCompressImages (Handlers.someImages
      (if history.isSome then (Handlers.lastUser messages).elim [] messageImages
        else collectedImages messages)) := by
  rw [Handlers.chat, if_pos huser]
  cases history with
  | none =>
    dsimp only
    rw [userImages_rewritten]
    rfl
  | some turns =>
    have hturns : ((turns.map fun t => chatMessage t.1 t.2).filter (hasRole "user")).flatMap
        messageImages = [] := by
      rw [List.flatMap_eq_nil_iff]
      intro m hm
      obtain ⟨t, -, rfl⟩ := List.mem_map.mp (List.mem_filter.mp hm).1
      exact messageImages_chatMessage t.1 t.2
    have hlast : ((Handlers.lastUser (rewriteLastUser compressed messages)).toList.filter
        (hasRole "user")).flatMap messageImages =
          (Handlers.lastUser (rewriteLastUser compressed messages)).elim [] messageImages := by
      cases hfound : Handlers.lastUser (rewriteLastUser compressed messages) with
      | none => rfl
      | some m =>
        have hm : hasRole "user" m = true := List.find?_some hfound
        simp [hm]
    dsimp only
    rw [List.filter_append, List.flatMap_append, hturns, List.nil_append, hlast, lastUser_rewritten]
    rfl

theorem collectedImages_eq : collectedImages messages =
    earlierImages messages ++ (Handlers.lastUser messages).elim [] messageImages := by
  rw [Handlers.lastUser, find_reverse]
  exact flatMap_dropLast

theorem validate_someImages (imgs : List String) :
    (h.validateAndCompressImages (Handlers.someImages imgs)).map (fun images => images.getD []) =
      (h.validateAndCompressImages (some imgs)).map fun images => images.getD [] := by
  unfold Handlers.someImages
  split
  · next hnil =>
    rw [hnil]
    rfl
  · rfl

theorem validate_refused_iff (imgs : List String) :
    (∃ e, h.validateAndCompressImages (Handlers.someImages imgs) = .error e) ↔
      ∃ e, h.validateAndCompressImages (some imgs) = .error e := by
  unfold Handlers.someImages
  split
  · next hnil => simp [hnil, Handlers.validateAndCompressImages]
  · rfl

/-- Images that are the same after the check are of the same number. -/
theorem checked_length {imgs imgs' : List String} {images : Option (List String)}
    (himages : h.validateAndCompressImages (Handlers.someImages imgs) = .ok images)
    (hexpected : (h.validateAndCompressImages (some imgs')).map (fun images => images.getD []) =
      .ok (images.getD [])) : imgs'.length = imgs.length := by
  have hlength := validate_length himages
  rw [someImages_getD] at hlength
  cases hcheck : h.validateAndCompressImages (some imgs') with
  | error e =>
    rw [hcheck] at hexpected
    cases hexpected
  | ok out =>
    have hlength' := validate_length hcheck
    rw [hcheck] at hexpected
    have heq : out.getD [] = images.getD [] := Except.ok.inj hexpected
    rw [heq, Option.getD_some] at hlength'
    omega

theorem chatExpected_of_last {images : Option (List String)}
    (himages : h.validateAndCompressImages
      (Handlers.someImages ((Handlers.lastUser messages).elim [] messageImages)) = .ok images) :
    h.chatExpected messages = .ok (images.getD []) := by
  rw [Handlers.chatExpected, ← validate_someImages, himages]
  rfl

/-- Where no conversation is loaded. -/
theorem collected_submits_iff :
    Handlers.Submits (h.validateAndCompressImages (Handlers.someImages (collectedImages messages)))
        (h.chatExpected messages) ↔
      earlierImages messages = [] ∨
        ∃ e, h.validateAndCompressImages (some (collectedImages messages)) = .error e := by
  constructor
  · intro hsubmits
    rw [← validate_refused_iff]
    cases hsent : h.validateAndCompressImages (Handlers.someImages (collectedImages messages)) with
    | error e => exact .inr ⟨e, rfl⟩
    | ok images =>
      have hlength := checked_length hsent (hsubmits images hsent)
      rw [collectedImages_eq, List.length_append] at hlength
      exact .inl (List.length_eq_zero_iff.mp (by omega))
  · rintro (hearlier | hrefused) images himages
    · rw [collectedImages_eq, hearlier, List.nil_append] at himages
      exact chatExpected_of_last himages
    · obtain ⟨e, he⟩ := (validate_refused_iff _).mpr hrefused
      rw [he] at himages
      cases himages

/-- Which messages the Ollama handler submits the right images for. -/
theorem chat_submits_iff (history : Option (List (String × String))) (compressed : Option String) :
    Handlers.Submits (h.chat history compressed messages) (h.chatExpected messages) ↔
      history.isSome = true ∨ earlierImages messages = [] ∨
        ∃ e, h.validateAndCompressImages (some (collectedImages messages)) = .error e := by
  by_cases huser : messages.any (hasRole "user") = true
  · rw [chat_eq history compressed huser]
    by_cases hhistory : history.isSome = true
    · rw [if_pos hhistory]
      exact iff_of_true (fun images himages => chatExpected_of_last himages) (.inl hhistory)
    · rw [if_neg hhistory, collected_submits_iff]
      simp [hhistory]
  · have hrefused : Handlers.Submits (h.chat history compressed messages) (h.chatExpected messages) := by
      intro images himages
      rw [Handlers.chat, if_neg huser] at himages
      cases himages
    have hnone : messages.filter (hasRole "user") = [] := by
      rw [List.filter_eq_nil_iff]
      intro m hm hrole
      exact huser (List.any_eq_true.mpr ⟨m, hm, hrole⟩)
    have hearlier : earlierImages messages = [] := by
      rw [earlierImages, hnone]
      rfl
    exact iff_of_true hrefused (.inr (.inl hearlier))

/-! ### The OpenAI handler -/

/-- The images in the contents of the user messages before the last. -/
def earlierContentImages (messages : List ChatMessage) : List String :=
  (messages.filter ChatMessage.isUser).dropLast.flatMap ChatMessage.contentImages

theorem ollamaChatProxy_getD (history : List (String × String)) (compressed : Option String) :
    (h.ollamaChatProxy history compressed req).getD [] = req.images.getD [] ++
      (req.messages.filter ChatMessage.isUser).flatMap ChatMessage.contentImages ++
        (req.messages.reverse.find? ChatMessage.isUser).elim [] fun m => m.images.getD [] := by
  have hcontents : ((history.map fun t => ChatMessage.stored t.1 t.2).filter
      ChatMessage.isUser).flatMap ChatMessage.contentImages = [] := by
    rw [List.flatMap_eq_nil_iff]
    intro m hm
    obtain ⟨t, -, rfl⟩ := List.mem_map.mp (List.mem_filter.mp hm).1
    rfl
  have hstored : ((history.map fun t => ChatMessage.stored t.1 t.2).reverse.find?
      ChatMessage.isUser).elim [] (fun m => m.images.getD []) = [] := by
    cases hfound : (history.map fun t => ChatMessage.stored t.1 t.2).reverse.find?
        ChatMessage.isUser with
    | none => rfl
    | some m =>
      have hmem := List.mem_reverse.mp (List.mem_of_find?_eq_some hfound)
      obtain ⟨t, -, rfl⟩ := List.mem_map.mp hmem
      rfl
  have hrole : hasRole "user" ∘ ChatMessage.intoOllamaValue h.fromStr = ChatMessage.isUser :=
    funext fun m => hasRole_intoOllamaValue
  unfold Handlers.ollamaChatProxy
  dsimp only
  rw [someImages_getD, lastUser_rewritten, Handlers.lastUser, ← List.map_reverse, List.find?_map, hrole,
    List.filter_append, List.flatMap_append, hcontents, List.nil_append, List.reverse_append,
    List.find?_append]
  congr 1
  cases req.messages.reverse.find? ChatMessage.isUser with
  | none =>
    rw [Option.none_or, Option.elim_none, ← hstored]
    cases (history.map fun t => ChatMessage.stored t.1 t.2).reverse.find? ChatMessage.isUser with
    | none => rfl
    | some m => exact messageImages_intoOllamaValue
  | some m => exact messageImages_intoOllamaValue

theorem newSystem_isUser (text : String) : (ChatMessage.newSystem text).isUser = false := by
  simp [ChatMessage.newSystem, ChatMessage.isUser]

theorem find_cons_newSystem (text : String) (msgs : List ChatMessage) :
    (ChatMessage.newSystem text :: msgs).reverse.find? ChatMessage.isUser =
      msgs.reverse.find? ChatMessage.isUser := by
  rw [find_reverse, find_reverse, List.filter_cons_of_neg (by simp [newSystem_isUser])]

/-- A request that has no images at all. -/
theorem allImages_of_none (hnone : Handlers.hasAnyImages req = false) :
    req.images.getD [] = [] ∧ ∀ m ∈ req.messages, m.allImages = [] := by
  rw [Handlers.hasAnyImages, Bool.or_eq_false_iff] at hnone
  have hempty : ∀ images : Option (List String), images.any (· ≠ []) = false → images.getD [] = [] := by
    intro images h
    cases images with
    | none => rfl
    | some imgs => simpa using h
  refine ⟨hempty _ hnone.1, fun m hm => ?_⟩
  have hm' := List.any_eq_false.mp hnone.2 m hm
  rw [Bool.or_eq_true, not_or, Bool.not_eq_true, Bool.not_eq_true] at hm'
  have hcontent : m.contentImages = [] := by
    have hparts := hm'.2
    unfold ChatMessage.contentImages
    cases hc : m.content with
    | none => rfl
    | some c =>
      cases c with
      | text s => rfl
      | parts ps =>
        rw [hc] at hparts
        have hfilter : ps.filter (fun p => p.partType = "image_url") = [] := by
          rw [List.filter_eq_nil_iff]
          exact List.any_eq_false.mp hparts
        simp [MessageContent.extractImages, hfilter]
  rw [ChatMessage.allImages, hcontent, hempty _ hm'.1]
  rfl

/-- The images of the proxy, where `top` are those of the request. -/
theorem proxied_iff (history : List (String × String)) (compressed : Option String)
    (top : Option (List String)) :
    (h.ollamaChatProxy history compressed { req with
        images := top, messages := ChatMessage.newSystem h.currentDatetime :: req.messages }).getD [] =
          top.getD [] ++ (req.messages.reverse.find? ChatMessage.isUser).elim [] ChatMessage.allImages ↔
      earlierContentImages req.messages = [] := by
  rw [ollamaChatProxy_getD]
  dsimp only
  rw [find_cons_newSystem, List.filter_cons_of_neg (by simp [newSystem_isUser]), List.append_assoc,
    List.append_right_inj, flatMap_dropLast, ← find_reverse, ← earlierContentImages]
  cases req.messages.reverse.find? ChatMessage.isUser with
  | none => simp
  | some m =>
    rw [Option.elim_some, Option.elim_some, Option.elim_some, ChatMessage.allImages, List.append_assoc]
    simp

/-- The prompt alone goes with the top-level images. -/
theorem legacy_iff (top : Option (List String)) :
    Handlers.Submits (Handlers.legacyQueueChat { req with
        images := top, messages := ChatMessage.newSystem h.currentDatetime :: req.messages })
        (.ok (top.getD [] ++
          (req.messages.reverse.find? ChatMessage.isUser).elim [] ChatMessage.allImages)) ↔
      (req.messages.reverse.find? ChatMessage.isUser).elim True fun m =>
        m.contentStr = "" ∨ m.allImages = [] := by
  unfold Handlers.legacyQueueChat
  dsimp only
  rw [find_cons_newSystem]
  cases req.messages.reverse.find? ChatMessage.isUser with
  | none => simp [Handlers.Submits]
  | some m =>
    rw [Option.elim_some, Option.elim_some, Option.elim_some]
    by_cases hprompt : m.contentStr = ""
    · simp [Handlers.Submits, hprompt]
    · simp [Handlers.Submits, hprompt]

theorem singleton_submits_iff {images : Option (List String)} {expected : List String} :
    Handlers.Submits (.ok images) (.ok expected) ↔ images.getD [] = expected := by
  constructor
  · intro h
    exact (Except.ok.inj (h images rfl)).symm
  · intro h out hout
    rw [← Except.ok.inj hout, h]

theorem chatCompletions_eq (history : List (String × String)) (compressed : Option String)
    {top : Option (List String)} (hcheck : h.validateAndCompressImages req.images = .ok top) :
    ∃ req' : ChatCompletionRequest, req' = { req with
        images := top, messages := ChatMessage.newSystem h.currentDatetime :: req.messages } ∧
      h.chatCompletions history compressed req =
        if req.providerType.getD "ollama" = "ollama" then
          if !(Handlers.hasAnyImages req' || !req.useMcp.getD true) && h.mcpIntercepts then .ok none
          else .ok (h.ollamaChatProxy history compressed req')
        else Handlers.legacyQueueChat req' := by
  refine ⟨_, rfl, ?_⟩
  rw [Handlers.chatCompletions, hcheck]
  rfl

/-- Without an image there is none to be sent. -/
theorem intercepted_iff {top : Option (List String)}
    (hnone : Handlers.hasAnyImages { req with
        images := top, messages := ChatMessage.newSystem h.currentDatetime :: req.messages } = false) :
    [] = top.getD [] ++
        (req.messages.reverse.find? ChatMessage.isUser).elim [] ChatMessage.allImages ↔
      earlierContentImages req.messages = [] := by
  obtain ⟨htop, hall⟩ := allImages_of_none hnone
  have hall' : ∀ m ∈ req.messages, m.allImages = [] := fun m hm => hall m (List.mem_cons_of_mem _ hm)
  refine iff_of_true ?_ ?_
  · change top.getD [] = [] at htop
    rw [htop, List.nil_append]
    cases hlast : req.messages.reverse.find? ChatMessage.isUser with
    | none => rfl
    | some m => exact (hall' m (List.mem_reverse.mp (List.mem_of_find?_eq_some hlast))).symm
  · rw [earlierContentImages, List.flatMap_eq_nil_iff]
    intro m hm
    have hmem : m ∈ req.messages := (List.mem_filter.mp (List.mem_of_mem_dropLast hm)).1
    exact (List.append_eq_nil_iff.mp (hall' m hmem)).1

/-- Which requests the OpenAI handler submits the right images for. -/
theorem chatCompletions_submits_iff (history : List (String × String)) (compressed : Option String) :
    Handlers.Submits (h.chatCompletions history compressed req) (h.chatCompletionsExpected req) ↔
      (∃ e, h.validateAndCompressImages req.images = .error e) ∨
        if req.providerType.getD "ollama" = "ollama" then earlierContentImages req.messages = []
        else (req.messages.reverse.find? ChatMessage.isUser).elim True fun m =>
          m.contentStr = "" ∨ m.allImages = [] := by
  unfold Handlers.chatCompletionsExpected
  cases hcheck : h.validateAndCompressImages req.images with
  | error e =>
    refine iff_of_true (fun images himages => ?_) (.inl ⟨e, rfl⟩)
    rw [Handlers.chatCompletions, hcheck] at himages
    cases himages
  | ok top =>
    obtain ⟨req', hreq, heq⟩ := chatCompletions_eq history compressed hcheck
    have hright : ¬ ∃ e : String, (.ok top : Except String (Option (List String))) = .error e := by
      simp
    rw [heq, or_iff_right hright]
    change Handlers.Submits _ (.ok (top.getD [] ++
      (req.messages.reverse.find? ChatMessage.isUser).elim [] ChatMessage.allImages)) ↔ _
    by_cases hprovider : req.providerType.getD "ollama" = "ollama"
    · rw [if_pos hprovider, if_pos hprovider]
      by_cases hmcp : (!(Handlers.hasAnyImages req' || !req.useMcp.getD true) && h.mcpIntercepts) = true
      · rw [if_pos hmcp, singleton_submits_iff]
        rw [Bool.and_eq_true, Bool.not_eq_true', Bool.or_eq_false_iff] at hmcp
        exact intercepted_iff (hreq ▸ hmcp.1.1)
      · rw [if_neg hmcp, singleton_submits_iff, hreq]
        exact proxied_iff history compressed top
    · rw [if_neg hprovider, if_neg hprovider, hreq]
      exact legacy_iff top

end Submitted

theorem last_images_iff (h : Handlers) (req : ChatCompletionRequest) (messages : List Json)
    (stored : List (String × String)) (history : Option (List (String × String)))
    (compressed : Option String) :
    (Handlers.Submits (h.chatCompletions stored compressed req) (h.chatCompletionsExpected req) ↔
      (∃ e, h.validateAndCompressImages req.images = .error e) ∨
        if req.providerType.getD "ollama" = "ollama" then earlierContentImages req.messages = []
        else (req.messages.reverse.find? ChatMessage.isUser).elim True fun m =>
          m.contentStr = "" ∨ m.allImages = []) ∧
      (Handlers.Submits (h.chat history compressed messages) (h.chatExpected messages) ↔
        history.isSome = true ∨ earlierImages messages = [] ∨
          ∃ e, h.validateAndCompressImages (some (collectedImages messages)) = .error e) :=
  ⟨chatCompletions_submits_iff stored compressed, chat_submits_iff history compressed⟩

/-! ## An image of an earlier turn -/

def imagePart (url : String) : ContentPart where
  partType := "image_url"
  text := none
  imageUrl := some url

def imageMessage (role : String) (urls : List String) : ChatMessage where
  role := role
  content := some (.parts (urls.map imagePart))
  toolCalls := none
  toolCallId := none
  name := none
  images := none

/-- Two images in two turns of the user, none beside the messages. -/
def twoTurns : ChatCompletionRequest where
  messages := [imageMessage "user" ["data:image/png;base64,AA"], imageMessage "assistant" [],
    imageMessage "user" ["data:image/png;base64,BB"]]
  providerType := none
  images := none
  useMcp := none

def twoTurnsOllama : List Json :=
  [.obj [("role", .str "user"), ("content", .str "What is this?"), ("images", .arr [.str "AA"])],
    .obj [("role", .str "assistant"), ("content", .str "A cat.")],
    .obj [("role", .str "user"), ("content", .str "And this?"), ("images", .arr [.str "BB"])]]

def fourImages : Handlers where
  maxImagesPerRequest := 4
  maxImageB64Bytes := 2 * 1024 * 1024
  compress img := .ok img
  fromStr _ := none
  currentDatetime := "Current date: 2025-01-01"
  mcpIntercepts := false

theorem earlier_images_sent :
    ¬ Handlers.Submits (fourImages.chatCompletions [] none twoTurns)
        (fourImages.chatCompletionsExpected twoTurns) ∧
      ¬ Handlers.Submits (fourImages.chat none none twoTurnsOllama)
        (fourImages.chatExpected twoTurnsOllama) := by
  constructor
  · intro h
    have hsent : fourImages.chatCompletions [] none twoTurns = .ok (some ["AA", "BB"]) := by
      decide +kernel
    have hlast : fourImages.chatCompletionsExpected twoTurns = .ok ["BB"] := by decide +kernel
    exact absurd (hlast.symm.trans (h _ hsent)) (by decide)
  · intro h
    have hsent : fourImages.chat none none twoTurnsOllama = .ok (some ["AA", "BB"]) := by
      decide +kernel
    have hlast : fourImages.chatExpected twoTurnsOllama = .ok ["BB"] := by decide +kernel
    exact absurd (hlast.symm.trans (h _ hsent)) (by decide)

end Veronex.ChatImages
