import RouterClient.Code.Layout

/-! # The runtime text

The Swift text that every generated file starts with, unless another text is given: any JSON
value, the errors of a call, middlewares, and the client that sends calls.
-/

namespace RouterClient.Client

/-- The head of the file and what it imports. -/
def headerLines : Code.Lines :=
  [ "//",
    "//  TRPCClient.swift",
    "//  Generated by trpc-swift. Do not edit.",
    "//",
    "",
    "import Foundation",
    "" ]

def jsonValueLines : Code.Lines :=
  [ "/// Any JSON value, for schemas typed as `any` or `unknown`.",
    "public enum TRPCJSONValue: Codable, Hashable \x7b",
    "    case null",
    "    case bool(Bool)",
    "    case number(Double)",
    "    case string(String)",
    "    case array([TRPCJSONValue])",
    "    case object([String: TRPCJSONValue])",
    "",
    "    public init(from decoder: Decoder) throws \x7b",
    "        let container = try decoder.singleValueContainer()",
    "        if container.decodeNil() \x7b",
    "            self = .null",
    "        \x7d else if let value = try? container.decode(Bool.self) \x7b",
    "            self = .bool(value)",
    "        \x7d else if let value = try? container.decode(Double.self) \x7b",
    "            self = .number(value)",
    "        \x7d else if let value = try? container.decode(String.self) \x7b",
    "            self = .string(value)",
    "        \x7d else if let value = try? container.decode([TRPCJSONValue].self) \x7b",
    "            self = .array(value)",
    "        \x7d else \x7b",
    "            self = .object(try container.decode([String: TRPCJSONValue].self))",
    "        \x7d",
    "    \x7d",
    "",
    "    public func encode(to encoder: Encoder) throws \x7b",
    "        var container = encoder.singleValueContainer()",
    "        switch self \x7b",
    "        case .null:",
    "            try container.encodeNil()",
    "        case .bool(let value):",
    "            try container.encode(value)",
    "        case .number(let value):",
    "            try container.encode(value)",
    "        case .string(let value):",
    "            try container.encode(value)",
    "        case .array(let value):",
    "            try container.encode(value)",
    "        case .object(let value):",
    "            try container.encode(value)",
    "        \x7d",
    "    \x7d",
    "\x7d",
    "" ]

def errorCodeLines : Code.Lines :=
  [ "public enum TRPCErrorCode: Int, Codable \x7b",
    "    // tRPC",
    "    case parseError = -32700",
    "    case badRequest = -32600",
    "    case internalServerError = -32603",
    "    case unauthorized = -32001",
    "    case forbidden = -32003",
    "    case notFound = -32004",
    "    case methodNotSupported = -32005",
    "    case timeout = -32008",
    "    case conflict = -32009",
    "    case preconditionFailed = -32012",
    "    case payloadTooLarge = -32013",
    "    case unprocessableContent = -32022",
    "    case tooManyRequests = -32029",
    "    case clientClosedRequest = -32099",
    "",
    "    // client",
    "    case unknown = -1",
    "    case missingOutputPayload = -2",
    "    case errorParsingUrl = -3",
    "    case errorParsingUrlComponents = -4",
    "    case invalidStreamPayload = -5",
    "\x7d",
    "" ]

/-- An error that a call may answer. -/
def errorLines : Code.Lines :=
  [ "public struct TRPCError: Error, Decodable \x7b",
    "    public let code: TRPCErrorCode",
    "    public let message: String?",
    "    public let data: TRPCJSONValue?",
    "",
    "    init(code: TRPCErrorCode, message: String? = nil, data: TRPCJSONValue? = nil) \x7b",
    "        self.code = code",
    "        self.message = message",
    "        self.data = data",
    "    \x7d",
    "\x7d",
    "" ]

/-- What a call answers. -/
def responseLines : Code.Lines :=
  [ "struct TRPCResponse<T: Decodable>: Decodable \x7b",
    "    struct Result: Decodable \x7b",
    "        let data: T?",
    "    \x7d",
    "",
    "    let result: Result?",
    "    let error: TRPCError?",
    "\x7d",
    "" ]

/-- Middlewares, and what a route class knows. -/
def dataLines : Code.Lines :=
  [ "public typealias TRPCMiddleware = (URLRequest) async throws -> URLRequest",
    "",
    "fileprivate protocol TRPCClientData: AnyObject \x7b",
    "    var url: URL \x7b get \x7d",
    "    var middlewares: [TRPCMiddleware] \x7b get \x7d",
    "\x7d",
    "" ]

/-- The client that sends calls. -/
def clientLines : Code.Lines :=
  [ "public class TRPCClient \x7b",
    "    static let shared = TRPCClient()",
    "",
    "    public struct EmptyObject: Codable \x7b",
    "        public init() \x7b \x7d",
    "    \x7d",
    "",
    "    static var dateFormatter: DateFormatter = \x7b",
    "        let formatter = DateFormatter()",
    "        formatter.locale = Locale(identifier: \"en_US_POSIX\")",
    "        formatter.dateFormat = \"yyyy-MM-dd'T'HH:mm:ss.SSSZ\"",
    "        formatter.timeZone = TimeZone(secondsFromGMT: 0)",
    "        return formatter",
    "    \x7d()",
    "",
    "    var session: URLSession = .shared",
    "",
    "    private func encode<Request: Encodable>(_ input: Request) throws -> Data? \x7b",
    "        if Request.self == EmptyObject.self \x7b",
    "            return nil",
    "        \x7d",
    "        let encoder = JSONEncoder()",
    "        encoder.dateEncodingStrategy = .formatted(TRPCClient.dateFormatter)",
    "        return try encoder.encode(input)",
    "    \x7d",
    "",
    "    private func queryUrl<Request: Encodable>(url: URL, input: Request) throws -> URL \x7b",
    "        guard var components = URLComponents(url: url, resolvingAgainstBaseURL: false) else \x7b",
    "            throw TRPCError(code: .errorParsingUrl, message: \"Could not create URLComponents from \\(url)\")",
    "        \x7d",
    "        if let data = try encode(input), let json = String(data: data, encoding: .utf8) \x7b",
    "            components.queryItems = [URLQueryItem(name: \"input\", value: json)]",
    "            let allowed = CharacterSet(charactersIn: \"/+\").inverted",
    "            guard let query = components.percentEncodedQuery else \x7b",
    "                throw TRPCError(code: .errorParsingUrlComponents, message: \"Could not read the percent encoded query.\")",
    "            \x7d",
    "            components.percentEncodedQuery = query.addingPercentEncoding(withAllowedCharacters: allowed)",
    "        \x7d",
    "        guard let url = components.url else \x7b",
    "            throw TRPCError(code: .errorParsingUrlComponents, message: \"Could not build the final URL.\")",
    "        \x7d",
    "        return url",
    "    \x7d",
    "",
    "    private func prepare(url: URL, httpMethod: String, middlewares: [TRPCMiddleware], body: Data?) async throws -> URLRequest \x7b",
    "        var request = URLRequest(url: url)",
    "        request.httpMethod = httpMethod",
    "        request.httpBody = body",
    "        request.addValue(\"application/json\", forHTTPHeaderField: \"Content-Type\")",
    "        for middleware in middlewares \x7b",
    "            request = try await middleware(request)",
    "        \x7d",
    "        request.httpMethod = httpMethod",
    "        request.httpBody = body",
    "        return request",
    "    \x7d",
    "",
    "    private func decode<Response: Decodable>(_ data: Data) throws -> Response \x7b",
    "        let decoder = JSONDecoder()",
    "        decoder.dateDecodingStrategy = .formatted(TRPCClient.dateFormatter)",
    "        let decoded = try decoder.decode(TRPCResponse<Response>.self, from: data)",
    "        if let error = decoded.error \x7b",
    "            throw error",
    "        \x7d",
    "        if let data = decoded.result?.data \x7b",
    "            return data",
    "        \x7d",
    "        if let empty = EmptyObject() as? Response \x7b",
    "            return empty",
    "        \x7d",
    "        throw TRPCError(code: .missingOutputPayload, message: \"Missing output payload.\")",
    "    \x7d",
    "",
    "    func sendQuery<Request: Encodable, Response: Decodable>(url: URL, middlewares: [TRPCMiddleware], input: Request) async throws -> Response \x7b",
    "        let request = try await prepare(url: try queryUrl(url: url, input: input), httpMethod: \"GET\", middlewares: middlewares, body: nil)",
    "        let (data, _) = try await session.data(for: request)",
    "        return try decode(data)",
    "    \x7d",
    "",
    "    func sendMutation<Request: Encodable, Response: Decodable>(url: URL, middlewares: [TRPCMiddleware], input: Request) async throws -> Response \x7b",
    "        let request = try await prepare(url: url, httpMethod: \"POST\", middlewares: middlewares, body: try encode(input))",
    "        let (data, _) = try await session.data(for: request)",
    "        return try decode(data)",
    "    \x7d",
    "",
    "    /// Server-sent events: every `data:` line carries one output value.",
    "    func sendSubscription<Request: Encodable, Response: Decodable>(url: URL, middlewares: [TRPCMiddleware], input: Request) -> AsyncThrowingStream<Response, Error> \x7b",
    "        AsyncThrowingStream \x7b continuation in",
    "            let task = Task \x7b",
    "                do \x7b",
    "                    var request = try await prepare(url: try queryUrl(url: url, input: input), httpMethod: \"GET\", middlewares: middlewares, body: nil)",
    "                    request.setValue(\"text/event-stream\", forHTTPHeaderField: \"Accept\")",
    "                    let (bytes, _) = try await session.bytes(for: request)",
    "                    let decoder = JSONDecoder()",
    "                    decoder.dateDecodingStrategy = .formatted(TRPCClient.dateFormatter)",
    "                    for try await line in bytes.lines \x7b",
    "                        guard line.hasPrefix(\"data:\") else \x7b",
    "                            continue",
    "                        \x7d",
    "                        let payload = line.dropFirst(5).trimmingCharacters(in: .whitespaces)",
    "                        guard let data = payload.data(using: .utf8) else \x7b",
    "                            throw TRPCError(code: .invalidStreamPayload, message: \"Could not read a stream event.\")",
    "                        \x7d",
    "                        continuation.yield(try decoder.decode(Response.self, from: data))",
    "                    \x7d",
    "                    continuation.finish()",
    "                \x7d catch \x7b",
    "                    continuation.finish(throwing: error)",
    "                \x7d",
    "            \x7d",
    "            continuation.onTermination = \x7b _ in",
    "                task.cancel()",
    "            \x7d",
    "        \x7d",
    "    \x7d",
    "\x7d" ]

def runtimeText : String :=
  Code.Lines.text
    (headerLines ++ jsonValueLines ++ errorCodeLines ++ errorLines ++ responseLines ++ dataLines ++
      clientLines)

end RouterClient.Client
