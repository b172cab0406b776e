/-!
# Names of the schema language

The names by which editors know the language, its documents and its server.
-/
namespace SchemaHighlighter

def languageId : String := "ecsact"

/-- The scheme of the addresses of documents that the server is given. -/
def documentScheme : String := "file"

def fileExtension : String := "ecsact"

/-- The files whose changes the server is told of. -/
def watchGlob : String := "**/*.ecsact"

/-- The editor command that restarts the server. -/
def restartCommand : String := "ecsact.lsp.restart"

/-- The server that is started when the settings name none. -/
def defaultServerCommand : String := "ecsact_lsp_server"

/-- The file that holds the statement engine. -/
def engineModuleFile : String := "ecsact_parse.wasm"

/-- What marks the log lines about the server. -/
def serverLogTag : String := "[ecsact-lsp]"

end SchemaHighlighter
